/-
# Broadcast rings

A broadcast channel keeps the last messages that were sent, up to its capacity. A receiver has a position
among all that were sent: it gets the message there, or is told that the message is gone and goes on at the
oldest one kept, or waits.

Messages that carry the number of what they tell about, with marks where numbers were left out, follow on
each other (`Follows`). A number that is missing there has a mark at its place (`Follows.covered`).

Key theorems: `Channel.recv_tells`, `Follows.split`.
-/
import Mathlib.Data.List.Basic
import Mathlib.Data.Nat.Notation

namespace Broadcast

/-! ### Rings -/

section Rings

variable {α : Type*}

/-- All that was sent, and whether the last sender is gone. -/
structure Channel (α : Type*) where
  sent : List α
  closed : Bool
  deriving DecidableEq, Repr

/-- One more message. -/
def Channel.send (ring : Channel α) (a : α) : Channel α := { ring with sent := ring.sent ++ [a] }

/-- The last sender is gone. -/
def Channel.close (ring : Channel α) : Channel α := { ring with closed := true }

/-- What a receiver gets: a message, how many it has missed, or that there will be none. -/
inductive Received (α : Type*) where
  | message (a : α)
  | lagged (skipped : ℕ)
  | closed
  deriving DecidableEq, Repr

/-- The position of the oldest message kept. -/
def Channel.oldest (ring : Channel α) (capacity : ℕ) : ℕ := ring.sent.length - capacity

/-- What the receiver at `next` gets and where it is then; nothing while it waits. -/
def Channel.recv (ring : Channel α) (capacity next : ℕ) : Option (Received α × ℕ) :=
  if next < ring.oldest capacity then some (.lagged (ring.oldest capacity - next), ring.oldest capacity)
  else
    match ring.sent[next]? with
    | some a => some (.message a, next + 1)
    | none => if ring.closed then some (.closed, next) else none

/-- What a receiver is told about a ring. -/
def Channel.Tells (ring : Channel α) (next : ℕ) : Received α → ℕ → Prop
  | .message a, next' => ring.sent[next]? = some a ∧ next' = next + 1
  | .lagged _, next' => next < next' ∧ next' ≤ ring.sent.length
  | .closed, next' => ring.closed = true ∧ next' = next

theorem Channel.recv_tells {ring : Channel α} {capacity next next' : ℕ} {received : Received α}
    (h : ring.recv capacity next = some (received, next')) : ring.Tells next received next' := by
  unfold Channel.recv at h
  by_cases hlag : next < ring.oldest capacity
  · rw [if_pos hlag] at h
    cases h
    exact ⟨hlag, Nat.sub_le _ _⟩
  rw [if_neg hlag] at h
  cases hnext : ring.sent[next]? with
  | some a =>
    rw [hnext] at h
    cases h
    exact ⟨hnext, rfl⟩
  | none =>
    rw [hnext] at h
    by_cases hclosed : ring.closed = true
    · simp only [if_pos hclosed] at h
      cases h
      exact ⟨hclosed, rfl⟩
    · simp only [if_neg hclosed] at h
      cases h

end Rings

/-! ### Numbers with marks -/

/-- From the number `a` on to `b`: each number in its turn, or a mark where some may be left out. -/
inductive Follows : ℕ → List (Option ℕ) → ℕ → Prop
  | nil (a : ℕ) : Follows a [] a
  | number {a b : ℕ} {l : List (Option ℕ)} (h : Follows (a + 1) l b) : Follows a (some a :: l) b
  | mark {a b c : ℕ} {l : List (Option ℕ)} (hle : a ≤ c) (h : Follows c l b) : Follows a (none :: l) b

namespace Follows

variable {a b c n : ℕ} {l m : List (Option ℕ)}

theorem le (h : Follows a l b) : a ≤ b := by
  induction h with
  | nil a => exact Nat.le_refl a
  | number _ ih => exact Nat.le_of_succ_le ih
  | mark hle _ ih => exact Nat.le_trans hle ih

theorem append (h : Follows a l b) (hm : Follows b m c) : Follows a (l ++ m) c := by
  induction h with
  | nil a => exact hm
  | number _ ih => exact .number (ih hm)
  | mark hle _ ih => exact .mark hle (ih hm)

theorem split : ∀ {l : List (Option ℕ)} {a : ℕ}, Follows a (l ++ m) c → ∃ b, Follows a l b ∧ Follows b m c
  | [], a, h => ⟨a, .nil a, h⟩
  | some i :: l, a, h => by
    cases h with
    | number h =>
      obtain ⟨b, hl, hm⟩ := split h
      exact ⟨b, .number hl, hm⟩
  | none :: l, a, h => by
    cases h with
    | mark hle h =>
      obtain ⟨b, hl, hm⟩ := split h
      exact ⟨b, .mark hle hl, hm⟩

theorem mem_bounds {i : ℕ} (h : Follows a l b) (hi : some i ∈ l) : a ≤ i ∧ i < b := by
  induction h with
  | nil a => cases hi
  | @number a b l h ih =>
    obtain hi | hi := List.mem_cons.mp hi
    · cases hi
      exact ⟨Nat.le_refl _, h.le⟩
    · obtain ⟨hlow, hhigh⟩ := ih hi
      exact ⟨Nat.le_of_succ_le hlow, hhigh⟩
  | @mark a b c l hle h ih =>
    obtain hi | hi := List.mem_cons.mp hi
    · cases hi
    · obtain ⟨hlow, hhigh⟩ := ih hi
      exact ⟨Nat.le_trans hle hlow, hhigh⟩

/-- **A missing number** has a mark at its place. -/
theorem covered (h : Follows a l b) (hlow : a ≤ n) (hhigh : n < b) :
    some n ∈ l ∨ ∃ pre post, l = pre ++ none :: post ∧ (∀ i, some i ∈ pre → i < n) ∧ ∀ i, some i ∈ post → n < i := by
  induction h with
  | nil a => omega
  | @number a b l h ih =>
    by_cases heq : a = n
    · subst heq
      exact .inl List.mem_cons_self
    obtain hmem | ⟨pre, post, hl, hpre, hpost⟩ := ih (by omega) hhigh
    · exact .inl (List.mem_cons_of_mem _ hmem)
    refine .inr ⟨some a :: pre, post, by rw [hl, List.cons_append], fun i hi => ?_, hpost⟩
    obtain hi | hi := List.mem_cons.mp hi
    · cases hi
      omega
    · exact hpre i hi
  | @mark a b c l hle h ih =>
    by_cases hbefore : n < c
    · -- it is one of those left out here
      exact .inr ⟨[], l, rfl, nofun, fun i hi => Nat.lt_of_lt_of_le hbefore (h.mem_bounds hi).1⟩
    obtain hmem | ⟨pre, post, hl, hpre, hpost⟩ := ih (by omega) hhigh
    · exact .inl (List.mem_cons_of_mem _ hmem)
    refine .inr ⟨none :: pre, post, by rw [hl, List.cons_append], fun i hi => ?_, hpost⟩
    obtain hi | hi := List.mem_cons.mp hi
    · cases hi
    · exact hpre i hi

end Follows

end Broadcast
