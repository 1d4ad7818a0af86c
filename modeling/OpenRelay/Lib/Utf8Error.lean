/-
# Where bytes stop being UTF-8

A check of bytes stops at the first ones that are no UTF-8: it says how many before them
are, and how many they are, or that they are the beginning of a character that the bytes
end within (`fromUtf8`). Decoding with replacement puts one replacement character for
them and begins anew behind them (`Broken`), so a text can be decoded piece by piece.

`run` is the decoder without its end: the characters that are complete. What it gives
is where the text of all bytes begins, whatever follows (`run_prefix`).

Key theorems: `decodeFrom_append`, `fromUtf8_spec`.
-/
import OpenRelay.Lib.Utf8
import Mathlib.Tactic.SplitIfs

namespace Utf8

/-! ### The characters that are complete -/

/-- The characters that are complete, and the decoder behind them. -/
def run : Decoder → List UInt8 → List Char × Decoder
  | d, [] => ([], d)
  | d, b :: bs => ((step d b.toNat).1 ++ (run (step d b.toNat).2 bs).1, (run (step d b.toNat).2 bs).2)

@[simp] theorem run_nil (d : Decoder) : run d [] = ([], d) := rfl

theorem run_append (d : Decoder) (xs ys : List UInt8) :
    run d (xs ++ ys) = ((run d xs).1 ++ (run (run d xs).2 ys).1, (run (run d xs).2 ys).2) := by
  induction xs generalizing d with
  | nil => simp
  | cons b xs ih => simp [run, ih]

theorem decodeFrom_append (d : Decoder) (xs ys : List UInt8) :
    decodeFrom d (xs ++ ys) = (run d xs).1 ++ decodeFrom (run d xs).2 ys := by
  induction xs generalizing d with
  | nil => simp
  | cons b xs ih => simp [run, decodeFrom, ih]

theorem decodeFrom_eq_run (d : Decoder) (bs : List UInt8) :
    decodeFrom d bs = (run d bs).1 ++ if (run d bs).2.owed = 0 then [] else [replacement] := by
  have h := decodeFrom_append d bs []
  rw [List.append_nil] at h
  exact h

/-- **Whatever follows, the text begins with the characters that are complete.** -/
theorem run_prefix (bs more : List UInt8) : (run fresh bs).1 <+: decode (bs ++ more) := by
  rw [decode, decodeFrom_append]
  exact List.prefix_append _ _

/-! ### The check -/

/-- Behind `valid` bytes that are whole characters, within one that has `within` bytes so far. -/
def fromUtf8Loop : Decoder → ℕ → ℕ → List UInt8 → Option (ℕ × Option ℕ)
  | _, valid, within, [] => if within = 0 then none else some (valid, none)
  | d, valid, within, b :: bs =>
    if accepts d b.toNat then
      if (step d b.toNat).2.owed = 0 then fromUtf8Loop (step d b.toNat).2 (valid + within + 1) 0 bs
      else fromUtf8Loop (step d b.toNat).2 valid (within + 1) bs
    else some (valid, some (max 1 within))

/-- None if the bytes are UTF-8; otherwise how many are before the error, and how many bytes it has,
unless they end within a character. -/
def fromUtf8 (bytes : List UInt8) : Option (ℕ × Option ℕ) := fromUtf8Loop fresh 0 0 bytes

/-- The bytes end within a character, and what is before is whole. -/
structure Cut (bytes : List UInt8) (valid : ℕ) : Prop where
  whole : (run fresh (bytes.take valid)).2 = fresh
  rest : (run fresh (bytes.drop valid)).1 = []

/-- Behind whole characters there are bytes which are none; the decoder begins anew behind them. -/
structure Broken (bytes : List UInt8) (valid len : ℕ) : Prop where
  pos : 0 < len
  inside : valid + len ≤ bytes.length
  whole : (run fresh (bytes.take valid)).2 = fresh
  replaced : ∀ q, q <+: bytes.drop (valid + len) →
    decode ((bytes.drop valid).take len ++ q) = replacement :: decode q
  anew : (run fresh (bytes.drop valid)).1 = replacement :: (run fresh (bytes.drop (valid + len))).1

section Loop

variable {d : Decoder} {b : ℕ}

theorem first_owed_zero (howed : (first b).2.owed = 0) : (first b).2 = fresh := by
  unfold first at howed ⊢
  split_ifs at howed ⊢ <;> simp_all

theorem first_owed (howed : (first b).2.owed ≠ 0) : (first b).1 = [] := by
  unfold first at howed ⊢
  split_ifs at howed ⊢ <;> simp_all [fresh]

theorem first_invalid (h : accepts fresh b = false) : first b = ([replacement], fresh) := by
  simp only [accepts, fresh, if_true, decide_eq_false_iff_not] at h
  unfold first
  split_ifs <;> first | omega | rfl

theorem step_of_owed_zero (howed : d.owed = 0) : step d b = first b := by
  rw [step, if_pos howed]

/-- The last byte of a character leaves the decoder as it began. -/
theorem step_last_fresh (h : accepts d b = true) (howed : (step d b).2.owed = 0) : (step d b).2 = fresh := by
  by_cases hd : d.owed = 0
  · rw [step_of_owed_zero hd] at howed ⊢
    exact first_owed_zero howed
  · simp only [accepts, if_neg hd, decide_eq_true_eq] at h
    have hin : ¬ (b < d.lower ∨ d.upper < b) := by omega
    simp only [step, if_neg hd, if_neg hin] at howed ⊢
    split_ifs at howed ⊢ with hone
    · rfl
    · simp only at howed
      omega

/-- A byte within a character gives none. -/
theorem step_within (h : accepts d b = true) (howed : (step d b).2.owed ≠ 0) : (step d b).1 = [] := by
  by_cases hd : d.owed = 0
  · rw [step_of_owed_zero hd] at howed ⊢
    exact first_owed howed
  · simp only [accepts, if_neg hd, decide_eq_true_eq] at h
    have hin : ¬ (b < d.lower ∨ d.upper < b) := by omega
    simp only [step, if_neg hd, if_neg hin] at howed ⊢
    split_ifs at howed ⊢ with hone
    · exact absurd rfl howed
    · rfl

/-- A byte that breaks a character is read anew. -/
theorem step_broken (h : accepts d b = false) (howed : d.owed ≠ 0) :
    step d b = (replacement :: (step fresh b).1, (step fresh b).2) := by
  simp only [accepts, if_neg howed, decide_eq_false_iff_not] at h
  have hout : b < d.lower ∨ d.upper < b := by omega
  simp only [step, if_neg howed, if_pos hout]
  rfl

end Loop

/-- What the check says of the bytes, from where it is in them: whole characters `before`, and what there
is of the next one. -/
def Says (bytes : List UInt8) : Option (ℕ × Option ℕ) → Prop
  | none => (run fresh bytes).2.owed = 0
  | some (valid, none) => Cut bytes valid
  | some (valid, some len) => Broken bytes valid len

section Spec

variable {before within bs : List UInt8} {d : Decoder} {b : UInt8}

/-- The bytes begin no character. -/
theorem broken_invalid (hbefore : (run fresh before).2 = fresh) (h : accepts fresh b.toNat = false) :
    Broken (before ++ b :: bs) before.length 1 := by
  have hstep : step fresh b.toNat = ([replacement], fresh) := first_invalid h
  have hdrop : (before ++ b :: bs).drop (before.length + 1) = bs := by
    rw [← List.drop_drop, List.drop_left]
    rfl
  refine ⟨Nat.one_pos, by simp, by rw [List.take_left]; exact hbefore, fun q _ => ?_, ?_⟩
  · rw [List.drop_left]
    simp [decode, decodeFrom, hstep]
  · rw [List.drop_left, hdrop]
    simp [run, hstep]

/-- A character breaks off. -/
theorem broken_within (hbefore : (run fresh before).2 = fresh) (hwithin : run fresh within = ([], d))
    (howed : d.owed ≠ 0) (hpos : 0 < within.length) (h : accepts d b.toNat = false) :
    Broken (before ++ within ++ b :: bs) before.length within.length := by
  have hstep := step_broken h howed
  have hdrop : (before ++ within ++ b :: bs).drop before.length = within ++ b :: bs := by
    rw [List.append_assoc, List.drop_left]
  have hdrop' : (before ++ within ++ b :: bs).drop (before.length + within.length) = b :: bs := by
    rw [← List.drop_drop, hdrop, List.drop_left]
  refine ⟨hpos, by simp, by rw [List.append_assoc, List.take_left]; exact hbefore, fun q hq => ?_, ?_⟩
  · rw [hdrop'] at hq
    rw [hdrop, List.take_left, decode, decodeFrom_append, hwithin, List.nil_append]
    rcases q with _ | ⟨b', q⟩
    · rw [decodeFrom, if_neg howed]
      rfl
    · obtain ⟨rfl, -⟩ := List.cons_prefix_cons.mp hq
      rw [decode, decodeFrom, decodeFrom, hstep]
      rfl
  · rw [hdrop, hdrop', run_append, hwithin, List.nil_append]
    simp only [run, hstep]
    rfl

end Spec

theorem fromUtf8Loop_spec : ∀ (bs before within : List UInt8) (d : Decoder), (run fresh before).2 = fresh →
    run fresh within = ([], d) → (within.length = 0 ↔ d.owed = 0) →
    Says (before ++ within ++ bs) (fromUtf8Loop d before.length within.length bs)
  | [], before, within, d, hbefore, hwithin, howed => by
    unfold fromUtf8Loop
    rw [List.append_nil]
    split_ifs with hempty
    · show (run fresh (before ++ within)).2.owed = 0
      rw [run_append, hbefore, hwithin]
      exact howed.mp hempty
    · refine ⟨?_, ?_⟩
      · rw [List.take_left]
        exact hbefore
      · rw [List.drop_left, hwithin]
  | b :: bs, before, within, d, hbefore, hwithin, howed => by
    unfold fromUtf8Loop
    have hsplit : before ++ within ++ b :: bs = (before ++ within ++ [b]) ++ [] ++ bs := by simp
    split_ifs with haccepts hwhole
    · have hnext := fromUtf8Loop_spec bs (before ++ within ++ [b]) [] (step d b.toNat).2
      rw [← hsplit] at hnext
      have hfresh := step_last_fresh haccepts hwhole
      have hlength : (before ++ within ++ [b]).length = before.length + within.length + 1 := by simp [Nat.add_assoc]
      rw [hlength] at hnext
      refine hnext ?_ ?_ ?_
      · rw [List.append_assoc, run_append, hbefore, run_append, hwithin]
        exact hfresh
      · rw [hfresh]
        rfl
      · exact iff_of_true rfl hwhole
    · have hnext := fromUtf8Loop_spec bs before (within ++ [b]) (step d b.toNat).2 hbefore
      have hlength : (within ++ [b]).length = within.length + 1 := by simp
      have hlist : before ++ (within ++ [b]) ++ bs = before ++ within ++ b :: bs := by simp
      rw [hlength, hlist] at hnext
      refine hnext ?_ (iff_of_false (Nat.succ_ne_zero _) hwhole)
      rw [run_append, hwithin]
      simp [run, step_within haccepts hwhole]
    · have hrefused : accepts d b.toNat = false := by simpa using haccepts
      by_cases hempty : within.length = 0
      · rw [List.length_eq_zero_iff] at hempty
        subst hempty
        cases hwithin
        rw [List.append_nil]
        exact broken_invalid hbefore hrefused
      · have hpos : 0 < within.length := by omega
        rw [Nat.max_eq_right hpos]
        exact broken_within hbefore hwithin (fun hd => hempty (howed.mpr hd)) hpos hrefused

/-- **What the check says.** -/
theorem fromUtf8_spec (bytes : List UInt8) : Says bytes (fromUtf8 bytes) :=
  fromUtf8Loop_spec bytes [] [] fresh rfl rfl (iff_of_true rfl rfl)

end Utf8
