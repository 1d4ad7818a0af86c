/-
# Queues that drop their oldest

A queue may be bounded by how many elements it has (`trim`), or by what they weigh
(`makeRoom`); either way the oldest go first. What is left are the newest, and a
queue that was trimmed after every push holds what it would hold trimmed once.

Key theorems: `trim_eq`, `newest_push`, `makeRoom_le`, `take_filter_newest`.
-/
import Mathlib.Algebra.GroupWithZero.Nat
import Mathlib.Data.List.Basic
import Mathlib.Algebra.Order.BigOperators.Group.List
import Mathlib.Algebra.Order.Group.Nat

namespace BoundedQueue

variable {α : Type*}

/-- The last `k` elements. -/
def newest (k : ℕ) (l : List α) : List α := l.drop (l.length - k)

theorem newest_nil (k : ℕ) : newest k ([] : List α) = [] := List.drop_nil

theorem newest_of_length_le {k : ℕ} {l : List α} (h : l.length ≤ k) : newest k l = l := by
  rw [newest, Nat.sub_eq_zero_of_le h, List.drop_zero]

theorem newest_suffix (k : ℕ) (l : List α) : newest k l <:+ l := List.drop_suffix _ _

theorem newest_cons {k : ℕ} {a : α} {l : List α} (h : k < (a :: l).length) : newest k (a :: l) = newest k l := by
  rw [List.length_cons] at h
  rw [newest, newest, List.length_cons, show l.length + 1 - k = (l.length - k) + 1 by omega, List.drop_succ_cons]

/-- The newest from the last. -/
theorem reverse_newest (k : ℕ) (l : List α) : (newest k l).reverse = l.reverse.take k := by
  rw [newest, List.reverse_drop]
  by_cases hk : k ≤ l.length
  · rw [Nat.sub_sub_self hk]
  · rw [Nat.sub_eq_zero_of_le (Nat.le_of_not_le hk), Nat.sub_zero, List.take_of_length_le (by simp),
      List.take_of_length_le (by rw [List.length_reverse]; exact Nat.le_of_not_le hk)]

theorem newest_newest {j k : ℕ} (h : j ≤ k) (l : List α) : newest j (newest k l) = newest j l := by
  refine List.reverse_injective ?_
  rw [reverse_newest, reverse_newest, reverse_newest, List.take_take, Nat.min_eq_left h]

/-- Trimmed after every push, or once. -/
theorem newest_push (k : ℕ) (l : List α) (a : α) : newest k (newest k l ++ [a]) = newest k (l ++ [a]) := by
  refine List.reverse_injective ?_
  rw [reverse_newest, reverse_newest, List.reverse_append, List.reverse_append, reverse_newest, List.reverse_singleton,
    List.singleton_append, List.singleton_append]
  cases k with
  | zero => rw [List.take_zero, List.take_zero]
  | succ k => rw [List.take_succ_cons, List.take_succ_cons, List.take_take, Nat.min_eq_left (Nat.le_succ k)]

/-! ### Trimming by number -/

section Trim

variable (weight : α → ℕ) (capacity : ℕ)

/-- Drop the oldest until there are few enough. The weight is kept along. -/
def trim : List α → ℕ → List α × ℕ
  | [], total => ([], total)
  | a :: l, total => if capacity < (a :: l).length then trim l (total - weight a) else (a :: l, total)

theorem trim_eq : ∀ l : List α,
    trim weight capacity l (l.map weight).sum = (newest capacity l, ((newest capacity l).map weight).sum)
  | [] => by rw [newest_nil]; rfl
  | a :: l => by
    unfold trim
    by_cases h : capacity < (a :: l).length
    · rw [if_pos h, List.map_cons, List.sum_cons, Nat.add_sub_cancel_left, trim_eq l, newest_cons h]
    · rw [if_neg h, newest_of_length_le (Nat.le_of_not_lt h)]

variable {weight}

/-- Fewer elements weigh less. -/
theorem sum_newest_le {j k : ℕ} (h : j ≤ k) (l : List α) :
    ((newest j l).map weight).sum ≤ ((newest k l).map weight).sum := by
  rw [← newest_newest h l]
  exact ((newest_suffix j (newest k l)).sublist.map weight).sum_le_sum fun _ _ => Nat.zero_le _

end Trim

/-! ### Trimming by weight -/

section Room

variable (weight : α → ℕ) (limit size : ℕ)

/-- Drop the oldest until an element of this size fits. -/
def makeRoom : List α → List α
  | [] => []
  | a :: l => if limit < ((a :: l).map weight).sum + size then makeRoom l else a :: l

variable {weight limit size}

theorem makeRoom_suffix : ∀ l : List α, makeRoom weight limit size l <:+ l
  | [] => List.suffix_refl _
  | a :: l => by
    unfold makeRoom
    split_ifs
    · exact (makeRoom_suffix l).trans (List.suffix_cons a l)
    · exact List.suffix_refl _

theorem makeRoom_le (h : size ≤ limit) : ∀ l : List α, ((makeRoom weight limit size l).map weight).sum + size ≤ limit
  | [] => by simpa [makeRoom] using h
  | a :: l => by
    unfold makeRoom
    split_ifs with hover
    · exact makeRoom_le h l
    · exact Nat.le_of_not_lt hover

end Room

/-! ### Searching from the newest -/

/-- Where the elements with a property are the newest ones, it does not matter
whether one looks at more than one takes. -/
theorem take_filter_newest {p : α → Bool} {j k : ℕ} (hjk : j ≤ k) {l : List α}
    (hp : l.Pairwise fun a b => p a = true → p b = true) :
    ((newest k l).reverse.filter p).take j = ((newest j l).reverse.filter p).take j := by
  have hall : ∀ m, (l.reverse.take m).filter p = (l.reverse.takeWhile p).take m := by
    have hrev : l.reverse.Pairwise fun a b => p b = true → p a = true := List.pairwise_reverse.mpr hp
    generalize l.reverse = r at hrev
    induction r with
    | nil => simp
    | cons a r ih =>
      intro m
      cases m with
      | zero => rfl
      | succ m =>
        obtain ⟨hhead, htail⟩ := List.pairwise_cons.mp hrev
        rw [List.take_succ_cons, List.takeWhile_cons]
        by_cases ha : p a = true
        · rw [List.filter_cons_of_pos ha, if_pos ha, List.take_succ_cons, ih htail]
        · have hnone : (r.take m).filter p = [] := by
            rw [List.filter_eq_nil_iff]
            exact fun b hb hpb => ha (hhead b (List.mem_of_mem_take hb) hpb)
          rw [List.filter_cons_of_neg ha, if_neg ha, hnone, List.take_nil]
  rw [reverse_newest, reverse_newest, hall, hall, List.take_take, List.take_take, Nat.min_self, Nat.min_eq_left hjk]

end BoundedQueue
