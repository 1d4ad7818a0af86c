/-
# Reading a text in chunks

A reader takes items off the front of a text, one after another, and waits when
the text ends before an item does. If what it takes does not depend on what
follows (`Stable`), then a text may come in chunks of any sizes: fed chunk by
chunk, with the rest of each held for the next, it gives the items and the rest
that the whole text gives (`feed_eq_drain`).

Key theorem: `drain_append`.
-/
import Mathlib.Data.List.Basic

namespace Chunks

variable {α β : Type*}

/-- A reader: the item at the front of a text and its length, or none if the text
ends before it. -/
structure Reader (α β : Type*) where
  next : List α → Option (β × ℕ)
  pos : ∀ {s b n}, next s = some (b, n) → 0 < n
  le : ∀ {s b n}, next s = some (b, n) → n ≤ s.length

/-- What the reader takes does not depend on what follows. -/
def Reader.Stable (R : Reader α β) : Prop :=
  ∀ {s : List α} {b : β} {n : ℕ}, R.next s = some (b, n) → ∀ t, R.next (s ++ t) = some (b, n)

variable (R : Reader α β)

/-- What a reader takes off the stream in so many turns, and what is left. -/
def drainTurns : ℕ → List α → List β × List α
  | 0, s => ([], s)
  | turns + 1, s =>
    match R.next s with
    | none => ([], s)
    | some (b, n) =>
      let more := drainTurns turns (s.drop n)
      (b :: more.1, more.2)

/-- The items of a text, and what is left of it. Every item takes a symbol at
least. -/
def drain (s : List α) : List β × List α := drainTurns R s.length s

/-- The items of chunks that come after the text `held`. -/
def feed : List α → List (List α) → List β × List α
  | held, [] => ([], held)
  | held, c :: cs =>
    let first := drain R (held ++ c)
    let more := feed first.2 cs
    (first.1 ++ more.1, more.2)

variable {R}

theorem next_nil : R.next [] = none := by
  rcases h : R.next [] with _ | ⟨b, n⟩
  · rfl
  · exact absurd (R.pos h) (by simpa using R.le h)

/-- Enough turns are enough. -/
theorem drainTurns_eq (turns : ℕ) (s : List α) (hle : s.length ≤ turns) : drainTurns R turns s = drain R s := by
  induction hlen : s.length using Nat.strongRecOn generalizing s turns with
  | ind len ih =>
    rw [drain, hlen]
    rcases len with _ | len
    · obtain rfl : s = [] := List.length_eq_zero_iff.mp hlen
      rcases turns with _ | turns
      · rfl
      · simp only [drainTurns, next_nil]
    · obtain ⟨turns, rfl⟩ : ∃ m, turns = m + 1 := ⟨turns - 1, by omega⟩
      simp only [drainTurns]
      rcases hn : R.next s with _ | ⟨b, n⟩
      · rfl
      · have hpos := R.pos hn
        have hdrop : (s.drop n).length = s.length - n := List.length_drop
        have hmore : ∀ m, (s.drop n).length ≤ m → drainTurns R m (s.drop n) = drain R (s.drop n) :=
          fun m hm => ih _ (by omega) m _ hm rfl
        simp only [hmore turns (by omega), hmore len (by omega)]

theorem drain_none {s : List α} (h : R.next s = none) : drain R s = ([], s) := by
  rw [← drainTurns_eq (s.length + 1) s (Nat.le_succ _), drainTurns, h]

theorem drain_some {s : List α} {b : β} {n : ℕ} (h : R.next s = some (b, n)) :
    drain R s = (b :: (drain R (s.drop n)).1, (drain R (s.drop n)).2) := by
  have hmore := @drainTurns_eq α β R s.length (s.drop n) (by simp)
  rw [← drainTurns_eq (s.length + 1) s (Nat.le_succ _), drainTurns, h]
  simp only [hmore]

@[simp] theorem drain_nil : drain R [] = ([], []) := drain_none next_nil

/-- What is left holds no item. -/
theorem next_rest (s : List α) : R.next (drain R s).2 = none := by
  induction hlen : s.length using Nat.strongRecOn generalizing s with
  | ind len ih =>
    rcases hn : R.next s with _ | ⟨b, n⟩
    · rw [drain_none hn]
      exact hn
    · have hpos := R.pos hn
      have hle := R.le hn
      rw [drain_some hn]
      exact ih _ (by rw [List.length_drop]; omega) (s.drop n) rfl

/-- An item was read somewhere. -/
theorem mem_drain {b : β} (s : List α) (h : b ∈ (drain R s).1) : ∃ t n, R.next t = some (b, n) := by
  induction hlen : s.length using Nat.strongRecOn generalizing s with
  | ind len ih =>
    rcases hn : R.next s with _ | ⟨b', n⟩
    · rw [drain_none hn] at h
      exact absurd h List.not_mem_nil
    · have hpos := R.pos hn
      have hle := R.le hn
      rw [drain_some hn] at h
      rcases List.mem_cons.mp h with rfl | h
      · exact ⟨s, n, hn⟩
      · exact ih _ (by rw [List.length_drop]; omega) (s.drop n) h rfl

theorem mem_feed {b : β} {held : List α} (cs : List (List α)) (h : b ∈ (feed R held cs).1) :
    ∃ t n, R.next t = some (b, n) := by
  induction cs generalizing held with
  | nil => exact absurd h List.not_mem_nil
  | cons c cs ih =>
    rcases List.mem_append.mp h with h | h
    · exact mem_drain _ h
    · exact ih h

/-- **A text in two chunks.** -/
theorem drain_append (hR : R.Stable) (s t : List α) : drain R (s ++ t) =
    ((drain R s).1 ++ (drain R ((drain R s).2 ++ t)).1, (drain R ((drain R s).2 ++ t)).2) := by
  induction hlen : s.length using Nat.strongRecOn generalizing s with
  | ind len ih =>
    rcases hn : R.next s with _ | ⟨b, n⟩
    · rw [drain_none hn]
      rfl
    · have hpos := R.pos hn
      have hle := R.le hn
      have hdrop : (s ++ t).drop n = s.drop n ++ t := List.drop_append_of_le_length hle
      rw [drain_some (hR hn t), drain_some hn, hdrop,
        ih _ (by rw [List.length_drop]; omega) (s.drop n) rfl]
      rfl

/-- **A text in chunks.** -/
theorem feed_eq_drain (hR : R.Stable) {held : List α} (h : R.next held = none) (cs : List (List α)) :
    feed R held cs = drain R (held ++ cs.flatten) := by
  induction cs generalizing held with
  | nil =>
    rw [List.flatten_nil, List.append_nil, drain_none h]
    rfl
  | cons c cs ih =>
    rw [List.flatten_cons, ← List.append_assoc, drain_append hR (held ++ c), feed, ih (next_rest _)]

theorem feed_nil_eq_drain (hR : R.Stable) (cs : List (List α)) : feed R [] cs = drain R cs.flatten :=
  feed_eq_drain hR next_nil cs

end Chunks
