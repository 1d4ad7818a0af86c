/-
# Runs of a labelled transition system

A system takes an action in a state if the action is enabled there. A run is a
list of actions, each enabled where it is taken. What every step preserves a
run preserves (`run_invariant`); what every step that meets a condition
preserves, a run whose steps all meet it preserves (`run_invariant_of_meets`). Actions that do
not show can be taken out of a run (`run_erase`). What lowers a measure comes to an end (`run_decreasing`).
-/
import Mathlib.Data.Nat.Notation
import Mathlib.Data.Option.Basic

namespace Runs

variable {σ ι : Type*} (step : σ → ι → Option σ)

/-- The state after the actions, taken one after another. -/
def run : σ → List ι → Option σ
  | s, [] => some s
  | s, a :: as => (step s a).bind fun t => run t as

/-- Every step of the run meets the condition `C` on the state it is taken in. -/
def Meets (C : σ → ι → Prop) : σ → List ι → Prop
  | _, [] => True
  | s, a :: as => C s a ∧ (step s a).elim True fun t => Meets C t as

instance decidableMeets (C : σ → ι → Prop) [∀ s a, Decidable (C s a)] :
    ∀ (s : σ) (as : List ι), Decidable (Meets step C s as)
  | _, [] => .isTrue trivial
  | s, a :: as =>
    have : Decidable ((step s a).elim True fun t => Meets step C t as) :=
      match step s a with
      | none => .isTrue trivial
      | some t => decidableMeets C t as
    inferInstanceAs (Decidable (C s a ∧ _))

variable {step}

@[simp] theorem run_nil (s : σ) : run step s [] = some s := rfl

/-- A guarded step is taken where its guard holds. -/
theorem guarded {p : Prop} [Decidable p] {s t : σ} : (if p then some s else none) = some t ↔ p ∧ s = t := by
  rw [Option.ite_none_right_eq_some, Option.some.injEq]

theorem run_cons {s t : σ} {a : ι} {as : List ι} (h : run step s (a :: as) = some t) :
    ∃ m, step s a = some m ∧ run step m as = some t := by
  simpa [run, Option.bind_eq_some_iff] using h

theorem run_cons_of_step {s m : σ} {a : ι} (h : step s a = some m) (as : List ι) :
    run step s (a :: as) = run step m as := by
  rw [run, h, Option.bind_some]

theorem run_append (s : σ) (as bs : List ι) :
    run step s (as ++ bs) = (run step s as).bind fun t => run step t bs := by
  induction as generalizing s with
  | nil => rfl
  | cons a as ih => simp only [List.cons_append, run, Option.bind_assoc, ih]

theorem Meets.tail {C : σ → ι → Prop} {s t : σ} {a : ι} {as : List ι}
    (h : Meets step C s (a :: as)) (ht : step s a = some t) : Meets step C t as := by
  have := h.2
  rwa [ht] at this

theorem Meets.drop {C : σ → ι → Prop} : ∀ {as bs : List ι} {s t : σ}, Meets step C s (as ++ bs) →
    run step s as = some t → Meets step C t bs
  | [], _, _, _, h, ht => by
    cases ht
    exact h
  | a :: as, bs, s, t, h, ht => by
    obtain ⟨m, hm, ht⟩ := run_cons ht
    exact Meets.drop (h.tail hm) ht

theorem Meets.take {C : σ → ι → Prop} : ∀ {as bs : List ι} {s : σ}, Meets step C s (as ++ bs) → Meets step C s as
  | [], _, _, _ => trivial
  | a :: as, bs, s, h => by
    refine ⟨h.1, ?_⟩
    rcases hstep : step s a with _ | t
    · exact trivial
    · exact Meets.take (h.tail hstep)

/-- A condition that the actions meet in every state. -/
theorem meets_of_forall {C : σ → ι → Prop} :
    ∀ {as : List ι} {s : σ}, (∀ a ∈ as, ∀ s, C s a) → Meets step C s as
  | [], _, _ => trivial
  | a :: as, s, h => by
    refine ⟨h a List.mem_cons_self s, ?_⟩
    rcases step s a with _ | t
    · exact trivial
    · exact meets_of_forall fun b hb => h b (List.mem_cons_of_mem a hb)

theorem Meets.and {C D : σ → ι → Prop} : ∀ {as : List ι} {s : σ}, Meets step C s as → Meets step D s as →
    Meets step (fun s a => C s a ∧ D s a) s as
  | [], _, _, _ => trivial
  | a :: as, s, hC, hD => by
    refine ⟨⟨hC.1, hD.1⟩, ?_⟩
    rcases hstep : step s a with _ | t
    · exact trivial
    · exact Meets.and (hC.tail hstep) (hD.tail hstep)

/-- What every step preserves holds at the end of every run. -/
theorem run_invariant {I : σ → Prop} (hstep : ∀ {s a t}, I s → step s a = some t → I t) :
    ∀ {as : List ι} {s t : σ}, run step s as = some t → I s → I t
  | [], s, t, h, hs => by
    cases h; exact hs
  | a :: as, s, t, h, hs => by
    obtain ⟨m, hm, ht⟩ := run_cons h
    exact run_invariant hstep ht (hstep hs hm)

/-- What every step that meets `C` preserves holds at the end of every run
whose steps all meet `C`. -/
theorem run_invariant_of_meets {C : σ → ι → Prop} {I : σ → Prop}
    (hstep : ∀ {s a t}, I s → C s a → step s a = some t → I t) :
    ∀ {as : List ι} {s t : σ}, run step s as = some t → Meets step C s as → I s → I t
  | [], s, t, h, _, hs => by
    cases h; exact hs
  | a :: as, s, t, h, hC, hs => by
    obtain ⟨m, hm, ht⟩ := run_cons h
    exact run_invariant_of_meets hstep ht (hC.tail hm) (hstep hs hC.1 hm)

/-- An action that lowers a measure until the system is done gets it done. -/
theorem run_decreasing {I Done : σ → Prop} {a : ι} (μ : σ → ℕ)
    (hstep : ∀ {s}, I s → Done s ∨ ∃ t, step s a = some t ∧ I t ∧ μ t < μ s) {s : σ} (hs : I s) :
    ∃ n t, run step s (List.replicate n a) = some t ∧ I t ∧ Done t := by
  rcases hstep hs with hdone | ⟨t, ht, hI, hless⟩
  · exact ⟨0, s, rfl, hs, hdone⟩
  · obtain ⟨n, u, hu, hIu, hdone⟩ := run_decreasing μ hstep hI
    exact ⟨n + 1, u, by rw [List.replicate_succ, run_cons_of_step ht]; exact hu, hIu, hdone⟩
termination_by μ s

/-- A run without some of its actions: where the erased ones do not show through `proj` and the
others act alike on it, the run of the others ends in the projection of where the whole run ends.
`P` is what the end tells about the states before it. -/
theorem run_erase {C : σ → ι → Prop} {I P : σ → Prop} {proj : σ → σ} {erased : ι → Bool}
    (hI : ∀ {s a t}, I s → C s a → step s a = some t → I t)
    (hP : ∀ {s a t}, C s a → step s a = some t → P t → P s)
    (hskip : ∀ {s a t}, I s → P t → C s a → step s a = some t → erased a = true → proj t = proj s)
    (hkeep : ∀ {s a t}, I s → C s a → step s a = some t → erased a = false → step (proj s) a = some (proj t)) :
    ∀ {as : List ι} {s t : σ}, run step s as = some t → Meets step C s as → I s → P t →
      run step (proj s) (as.filter fun a => !erased a) = some (proj t) ∧ P s
  | [], s, t, h, _, _, hPt => by
    cases h
    exact ⟨rfl, hPt⟩
  | a :: as, s, t, h, hC, hIs, hPt => by
    obtain ⟨m, hm, ht⟩ := run_cons h
    obtain ⟨hrun, hPm⟩ := run_erase hI hP hskip hkeep ht (hC.tail hm) (hI hIs hC.1 hm) hPt
    refine ⟨?_, hP hC.1 hm hPm⟩
    by_cases herased : erased a = true
    · rw [List.filter_cons_of_neg (by rw [herased]; decide), ← hskip hIs hPm hC.1 hm herased]
      exact hrun
    · rw [List.filter_cons_of_pos (by rw [eq_false_of_ne_true herased]; decide)]
      show (step (proj s) a).bind _ = _
      rw [hkeep hIs hC.1 hm (eq_false_of_ne_true herased)]
      exact hrun

end Runs
