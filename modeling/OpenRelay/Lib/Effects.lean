/-
# Programs that take effects

A program over a state takes effects one after another and ends with a value
or an error; what it reads is the state its effects so far have left. Running
it gives the list of its effects and how it ends: a crash or a failed effect
leaves the state after a prefix of that list, and an error keeps the effects
taken before it.

`Along` says of a list of effects what holds of each at the state it is taken
in; it composes with the program (`along_append`).

`Only` says which effects a program can take at all (`only_bind`).
-/
import Mathlib.Data.List.Basic

namespace Effects

variable {E S ε α β : Type} {apply : E → S → S}

/-- The state after effects, taken one after another. -/
def applyAll (apply : E → S → S) (es : List E) (s : S) : S := es.foldl (fun s e => apply e s) s

@[simp] theorem applyAll_nil (s : S) : applyAll apply [] s = s := rfl

@[simp] theorem applyAll_cons (e : E) (es : List E) (s : S) :
    applyAll apply (e :: es) s = applyAll apply es (apply e s) := rfl

theorem applyAll_append (es es' : List E) (s : S) :
    applyAll apply (es ++ es') s = applyAll apply es' (applyAll apply es s) := by
  simp [applyAll]

/-- What every effect preserves, effects one after another preserve. -/
theorem applyAll_invariant {I : S → Prop} {P : E → Prop} (hstep : ∀ {s e}, I s → P e → I (apply e s)) :
    ∀ {es : List E} {s : S}, (∀ e ∈ es, P e) → I s → I (applyAll apply es s)
  | [], _, _, hs => hs
  | e :: es, s, hP, hs => by
    rw [applyAll_cons]
    exact applyAll_invariant hstep (fun e' h' => hP e' (List.mem_cons_of_mem _ h'))
      (hstep hs (hP e List.mem_cons_self))

/-- A program: from a state, the effects it takes and how it ends. -/
structure Prog (apply : E → S → S) (ε α : Type) where
  run : S → List E × Except ε α

namespace Prog

instance : Monad (Prog apply ε) where
  pure a := ⟨fun _ => ([], .ok a)⟩
  bind m f := ⟨fun s =>
    match m.run s with
    | (es, .error e) => (es, .error e)
    | (es, .ok a) => (es ++ ((f a).run (applyAll apply es s)).1, ((f a).run (applyAll apply es s)).2)⟩

/-- Take an effect. -/
def act (e : E) : Prog apply ε Unit := ⟨fun _ => ([e], .ok ())⟩

/-- Look at the state. -/
def get : Prog apply ε S := ⟨fun s => ([], .ok s)⟩

/-- The program that fails and does nothing. -/
def fail (e : ε) : Prog apply ε α := ⟨fun _ => ([], .error e)⟩

@[simp] theorem pure_run (a : α) (s : S) : (pure a : Prog apply ε α).run s = ([], .ok a) := rfl

@[simp] theorem act_run (e : E) (s : S) : (act e : Prog apply ε Unit).run s = ([e], .ok ()) := rfl

@[simp] theorem get_run (s : S) : (get : Prog apply ε S).run s = ([], .ok s) := rfl

@[simp] theorem fail_run (e : ε) (s : S) : (fail e : Prog apply ε α).run s = ([], .error e) := rfl

theorem bind_of_ok {m : Prog apply ε α} {s : S} {es : List E} {a : α} (h : m.run s = (es, .ok a))
    (f : α → Prog apply ε β) :
    (m >>= f).run s =
      (es ++ ((f a).run (applyAll apply es s)).1, ((f a).run (applyAll apply es s)).2) := by
  simp only [bind, h]

theorem bind_of_error {m : Prog apply ε α} {s : S} {es : List E} {e : ε}
    (h : m.run s = (es, .error e)) (f : α → Prog apply ε β) : (m >>= f).run s = (es, .error e) := by
  simp only [bind, h]

/-- A program that only looks, followed by another. -/
theorem bind_of_read {m : Prog apply ε α} {s : S} {a : α} (h : m.run s = ([], .ok a))
    (f : α → Prog apply ε β) : (m >>= f).run s = (f a).run s := by
  rw [bind_of_ok h]; rfl

/-- An effect, followed by another program. -/
theorem bind_of_act (e : E) (s : S) (f : Unit → Prog apply ε β) :
    (act e >>= f).run s = (e :: ((f ()).run (apply e s)).1, ((f ()).run (apply e s)).2) := rfl

/-- The program takes no other effects than these. -/
def Only (P : E → Prop) (m : Prog apply ε α) : Prop := ∀ s, ∀ e ∈ (m.run s).1, P e

theorem only_pure {P : E → Prop} (a : α) : Only P (pure a : Prog apply ε α) := nofun

theorem only_get {P : E → Prop} : Only P (get : Prog apply ε S) := nofun

theorem only_fail {P : E → Prop} (e : ε) : Only P (fail e : Prog apply ε α) := nofun

theorem only_act {P : E → Prop} {e : E} (h : P e) : Only P (act e : Prog apply ε Unit) :=
  fun _ e' he' => by rw [List.mem_singleton.mp he']; exact h

theorem only_bind {P : E → Prop} {m : Prog apply ε α} {f : α → Prog apply ε β} (hm : Only P m)
    (hf : ∀ a, Only P (f a)) : Only P (m >>= f) := by
  intro s e he
  have hes := hm s
  rcases hrun : m.run s with ⟨es, error | a⟩
  · rw [bind_of_error hrun] at he
    rw [hrun] at hes
    exact hes e he
  · rw [bind_of_ok hrun] at he
    rw [hrun] at hes
    rcases List.mem_append.mp he with he | he
    · exact hes e he
    · exact hf a _ e he

end Prog

/-- Every effect of the list meets `P` at the state it is taken in. -/
def Along (apply : E → S → S) (P : S → E → Prop) : List E → S → Prop
  | [], _ => True
  | e :: es, s => P s e ∧ Along apply P es (apply e s)

theorem along_append {P : S → E → Prop} : ∀ {es es' : List E} {s : S},
    Along apply P (es ++ es') s ↔ Along apply P es s ∧ Along apply P es' (applyAll apply es s)
  | [], _, _ => by simp [Along]
  | e :: es, es', s => by
    rw [List.cons_append, Along, Along, along_append, and_assoc]; rfl

theorem along_of_forall {P : S → E → Prop} : ∀ {es : List E} {s : S}, (∀ e ∈ es, ∀ s, P s e) → Along apply P es s
  | [], _, _ => trivial
  | e :: _, s, h =>
    ⟨h e List.mem_cons_self s, along_of_forall fun e' h' => h e' (List.mem_cons_of_mem _ h')⟩

/-- What every effect establishes between the states around it, and what
composes, holds between the first state and the one after any beginning of the
effects. -/
theorem along_of_append {P : S → E → Prop} {Q : S → S → Prop} (hrefl : ∀ s, Q s s)
    (htrans : ∀ {s t u}, Q s t → Q t u → Q s u) (hstep : ∀ {s e}, P s e → Q s (apply e s)) :
    ∀ {es es' : List E} {s : S}, Along apply P es s → es' <+: es → Q s (applyAll apply es' s)
  | _, [], s, _, _ => hrefl s
  | [], e' :: es', _, _, hpre => absurd (List.prefix_nil.mp hpre) (List.cons_ne_nil _ _)
  | e :: es, e' :: es', s, hal, hpre => by
    obtain ⟨rfl, hpre'⟩ := List.cons_prefix_cons.mp hpre
    exact htrans (hstep hal.1) (along_of_append hrefl htrans hstep hal.2 hpre')

end Effects
