/-
# The limit on running sessions

A start counts the running sessions of the table, takes the lock on the reserved ids
and adds their number; a commit releases the id under the lock and then publishes the
session in the table. Between its two steps a session is in neither, and the table may
have been read before either. In every run whose reservations rest on a count that
misses no session, and on an id that is not in flight, the limit is kept and every
reservation is released exactly once, by its own start (`admission_limit`).

Key theorems: `Settles`, `admissionInv_step`.
-/
import OpenRelay.Store.Operations

namespace OpenRelay
namespace Store

open Session (SessionStatus ExitCode TryWait)

variable {Id : Type*} [LinearOrder Id]

/-! ### Reservations -/

/-- The id of a start that has one and has not returned. -/
def StartPhase.flying : StartPhase Id → Option Id
  | .called _ | .loaded .. | .returned _ => none
  | .inserting id _ | .insertFailed id | .prepared id _ | .housed id _ | .spawned id .. | .updated id ..
  | .publishing id _ | .cleanup id _ | .aborting id _ => some id

/-- The id that a start has reserved, or has put into the table. -/
def Op.flying : Op Id → Option Id
  | .start phase _ => phase.flying
  | _ => none

/-- The id that an operation holds reserved. -/
def Op.reserves : Op Id → Option Id
  | .start phase n => if n = 0 then phase.flying else none
  | _ => none

/-- How often a start has released its id, by where it is. -/
def StartPhase.Released (n : ℕ) : StartPhase Id → Prop
  | .called _ | .loaded .. | .inserting .. | .insertFailed _ | .prepared .. | .housed .. | .spawned .. | .updated ..
  | .returned .refused => n = 0
  | .aborting _ .release => n ≤ 1
  | .publishing .. | .cleanup .. | .aborting .. | .returned (.notInserted _) | .returned (.committed _)
  | .returned (.aborted ..) => n = 1

def Op.Released : Op Id → Prop
  | .start phase n => phase.Released n
  | _ => True

/-- The runtime that a start has spawned. -/
def Op.runtime? : Op Id → Option ℕ
  | .start (.spawned _ _ rt) _ | .start (.updated _ rt _) _ | .start (.publishing _ rt) _
  | .start (.cleanup _ rt) _ => some rt
  | _ => none

/-- A running session between the two steps of its commit. -/
def SessionStore.commits (s : SessionStore Id) : Op Id → Bool
  | .start (.publishing _ rt) _ => s.isRunning rt
  | _ => false

/-- How many operations are about to put a session into the table. -/
def SessionStore.committing (s : SessionStore Id) : ℕ := s.ops.countP s.commits

/-- A start that reserves has counted every session that runs, in the table or on the way into
it, and its id is not in flight. -/
def Counted (s : SessionStore Id) : Action Id → Prop
  | .advance k env =>
    match s.ops[k]? with
    | some (.start (.loaded _ count _) _) =>
      env.ok = true → s.runningCount + s.committing ≤ count ∧ ∀ op ∈ s.ops, op.flying ≠ some env.id
    | _ => True
  | _ => True

instance (s : SessionStore Id) (action : Action Id) : Decidable (Counted s action) := by
  delta Counted
  cases action
  case advance k env =>
    dsimp only
    generalize s.ops[k]? = op
    rcases op with _ | (phase | _)
    case some.start => cases phase <;> infer_instance
    all_goals infer_instance
  all_goals infer_instance

/-! ### Steps that only settle -/

/-- Nothing is reserved or released, nothing comes into the table, and no session there is comes
to life again. -/
structure Settles (s t : SessionStore Id) : Prop where
  starting : t.starting = s.starting
  ops : t.ops = s.ops
  live : List.Sublist t.live.entries s.live.entries
  length : s.runtimes.length ≤ t.runtimes.length
  running : ∀ rt < s.runtimes.length, t.isRunning rt = true → s.isRunning rt = true

theorem Settles.refl (s : SessionStore Id) : Settles s s := ⟨rfl, rfl, .refl _, le_rfl, fun _ _ h => h⟩

theorem isRunning_setRuntime {s : SessionStore Id} {rt : ℕ} {r r' : Runtime} (hr : s.runtimes[rt]? = some r)
    (hdone : r.isCompleted = true → r'.isCompleted = true) (i : ℕ) (h : (s.setRuntime rt r').isRunning i = true) :
    s.isRunning i = true := by
  unfold SessionStore.isRunning SessionStore.setRuntime at *
  by_cases hi : rt = i
  · subst hi
    have hlt : rt < s.runtimes.length := (List.getElem?_eq_some_iff.mp hr).1
    rw [List.getElem?_set_self hlt] at h
    rw [hr]
    simp only [Option.any_some, Bool.not_eq_true'] at h ⊢
    exact eq_false_of_ne_true fun hc => by rw [hdone hc] at h; cases h
  · rwa [List.getElem?_set_ne hi] at h

theorem settles_setRuntime {s : SessionStore Id} {rt : ℕ} {r r' : Runtime} (hr : s.runtimes[rt]? = some r)
    (hdone : r.isCompleted = true → r'.isCompleted = true) : Settles s (s.setRuntime rt r') :=
  ⟨rfl, rfl, .refl _, (List.length_set ..).ge, fun i _ => isRunning_setRuntime hr hdone i⟩

theorem settles_updateSession (s : SessionStore Id) (id : Id) (m : SessionMeta) : Settles s (s.updateSession id m) :=
  ⟨rfl, rfl, .refl _, le_rfl, fun _ _ h => h⟩

theorem erase_sublist (m : SortedMap Id ℕ) (id : Id) : List.Sublist (m.erase id).entries m.entries :=
  List.filter_sublist

theorem foldl_erase_sublist : ∀ (ids : List Id) (m : SortedMap Id ℕ),
    List.Sublist (ids.foldl SortedMap.erase m).entries m.entries
  | [], _ => .refl _
  | id :: ids, m => (foldl_erase_sublist ids (m.erase id)).trans (erase_sublist m id)

theorem refreshed_completed {r : Runtime} (now : ℕ) (child : TryWait) (hdone : r.isCompleted = true) :
    (r.refreshStatus now child).1.isCompleted = true := by
  rw [Runtime.refreshStatus_of_completed hdone]
  exact hdone

theorem terminated_completed {r : Runtime} (now : ℕ) (child : TryWait) (requested : SessionStatus)
    (hdone : r.isCompleted = true) : (r.terminate now child requested).1.isCompleted = true := by
  rw [Runtime.terminate_of_completed hdone]
  exact hdone

theorem killed_completed {r : Runtime} (now : ℕ) (child : TryWait) (killed : Bool) (after : TryWait)
    (hdone : r.isCompleted = true) : (r.forceKill now child killed after).1.isCompleted = true := by
  rw [Runtime.forceKill_of_completed hdone]
  exact hdone

theorem settles_delete {s t : SessionStore Id} {env : Env Id} {id : Id} {force : Bool} {phase : DeletePhase}
    {op : Op Id} (h : deleteStep s env id force phase = some (t, op)) :
    Settles s t ∧ ∃ phase', op = .delete id force phase' := by
  cases phase with
  | called =>
    simp only [deleteStep] at h
    split at h
    all_goals obtain ⟨rfl, rfl⟩ := Prod.mk.inj (Option.some.inj h)
    all_goals exact ⟨.refl s, _, rfl⟩
  | holding rt =>
    obtain ⟨r, hr, heq⟩ := Option.map_eq_some_iff.mp h
    obtain ⟨rfl, rfl⟩ := Prod.mk.inj heq
    exact ⟨settles_setRuntime hr (refreshed_completed _ _), _, rfl⟩
  | terminating rt =>
    obtain ⟨r, hr, heq⟩ := Option.map_eq_some_iff.mp h
    obtain ⟨rfl, rfl⟩ := Prod.mk.inj heq
    exact ⟨settles_setRuntime hr (terminated_completed _ _ _), _, rfl⟩
  | killing rt =>
    obtain ⟨r, hr, heq⟩ := Option.map_eq_some_iff.mp h
    obtain ⟨rfl, rfl⟩ := Prod.mk.inj heq
    exact ⟨settles_setRuntime hr (killed_completed _ _ _ _), _, rfl⟩
  | checkTombstone | findDir had kill =>
    obtain ⟨rfl, rfl⟩ := Prod.mk.inj (Option.some.inj h)
    exact ⟨.refl s, _, rfl⟩
  | removeDir had kill | deleteRow had kill =>
    simp only [deleteStep] at h
    split at h
    · obtain ⟨rfl, rfl⟩ := Prod.mk.inj (Option.some.inj h)
      exact ⟨⟨rfl, rfl, .refl _, le_rfl, fun _ _ h => h⟩, _, rfl⟩
    · obtain ⟨rfl, rfl⟩ := Prod.mk.inj (Option.some.inj h)
      exact ⟨.refl s, _, rfl⟩
  | unlink had kill =>
    obtain ⟨rfl, rfl⟩ := Prod.mk.inj (Option.some.inj h)
    by_cases hhad : had = true
    · subst hhad
      exact ⟨⟨rfl, rfl, erase_sublist _ _, le_rfl, fun _ _ h => h⟩, _, rfl⟩
    · rw [if_neg hhad]
      exact ⟨.refl s, _, rfl⟩
  | untomb kill =>
    obtain ⟨rfl, rfl⟩ := Prod.mk.inj (Option.some.inj h)
    exact ⟨⟨rfl, rfl, .refl _, le_rfl, fun _ _ h => h⟩, _, rfl⟩
  | returned kill result => cases h

/-- A row is written, or the write fails. -/
theorem settles_write (s : SessionStore Id) (ok : Bool) (id : Id) (m : SessionMeta) :
    Settles s (if ok then s.updateSession id m else s) := by
  split
  · exact settles_updateSession s id m
  · exact .refl s

theorem settles_update {s t : SessionStore Id} {env : Env Id} {id : Id} {change : MetadataUpdate}
    {phase : UpdatePhase} {op : Op Id} (h : updateStep s env id change phase = some (t, op)) :
    Settles s t ∧ ∃ phase', op = .update id change phase' := by
  cases phase with
  | called =>
    simp only [updateStep] at h
    split at h
    · obtain ⟨rfl, rfl⟩ := Prod.mk.inj (Option.some.inj h)
      exact ⟨.refl s, _, rfl⟩
    · split at h
      all_goals obtain ⟨rfl, rfl⟩ := Prod.mk.inj (Option.some.inj h)
      all_goals exact ⟨.refl s, _, rfl⟩
  | holding rt =>
    obtain ⟨r, hr, heq⟩ := Option.map_eq_some_iff.mp h
    split at heq
    · obtain ⟨rfl, rfl⟩ := Prod.mk.inj heq
      exact ⟨.refl s, _, rfl⟩
    · obtain ⟨rfl, rfl⟩ := Prod.mk.inj heq
      exact ⟨settles_setRuntime hr fun hdone => (change.adopt_completed r).trans hdone, _, rfl⟩
  | writing rt m =>
    obtain ⟨rfl, rfl⟩ := Prod.mk.inj (Option.some.inj h)
    exact ⟨settles_write s env.ok id m, _, rfl⟩
  | offline =>
    simp only [updateStep] at h
    split at h
    · split at h
      all_goals obtain ⟨rfl, rfl⟩ := Prod.mk.inj (Option.some.inj h)
      all_goals exact ⟨.refl s, _, rfl⟩
    · obtain ⟨rfl, rfl⟩ := Prod.mk.inj (Option.some.inj h)
      exact ⟨.refl s, _, rfl⟩
  | writingRow m =>
    obtain ⟨rfl, rfl⟩ := Prod.mk.inj (Option.some.inj h)
    exact ⟨settles_write s env.ok id m, _, rfl⟩
  | returned ok => cases h

theorem settles_notify {s t : SessionStore Id} {env : Env Id} {id : Id} {enabled : Bool}
    {phase : NotifyPhase} {op : Op Id} (h : notifyStep s env id enabled phase = some (t, op)) :
    Settles s t ∧ ∃ phase', op = .notify id enabled phase' := by
  cases phase with
  | called =>
    simp only [notifyStep] at h
    split at h
    all_goals obtain ⟨rfl, rfl⟩ := Prod.mk.inj (Option.some.inj h)
    all_goals exact ⟨.refl s, _, rfl⟩
  | holding rt =>
    obtain ⟨r, hr, heq⟩ := Option.map_eq_some_iff.mp h
    simp only [] at heq
    split at heq
    · obtain ⟨rfl, rfl⟩ := Prod.mk.inj heq
      exact ⟨.refl s, _, rfl⟩
    · obtain ⟨rfl, rfl⟩ := Prod.mk.inj heq
      exact ⟨settles_setRuntime hr fun hdone => (Runtime.setNotificationsEnabled_completed enabled).trans hdone, _, rfl⟩
  | writing rt m previous =>
    simp only [notifyStep] at h
    split at h
    · obtain ⟨rfl, rfl⟩ := Prod.mk.inj (Option.some.inj h)
      exact ⟨settles_updateSession s id m, _, rfl⟩
    · obtain ⟨rfl, rfl⟩ := Prod.mk.inj (Option.some.inj h)
      exact ⟨.refl s, _, rfl⟩
  | rollback rt previous =>
    obtain ⟨r, hr, heq⟩ := Option.map_eq_some_iff.mp h
    obtain ⟨rfl, rfl⟩ := Prod.mk.inj heq
    exact ⟨settles_setRuntime hr fun hdone => (Runtime.setNotificationsEnabled_completed previous).trans hdone, _, rfl⟩
  | returned ok => cases h

theorem settles_sweep {s t : SessionStore Id} {env : Env Id} {phase : SweepPhase Id} {op : Op Id}
    (h : sweepStep s env phase = some (t, op)) : Settles s t ∧ ∃ phase', op = .sweep phase' := by
  cases phase with
  | called =>
    obtain ⟨rfl, rfl⟩ := Prod.mk.inj (Option.some.inj h)
    exact ⟨.refl s, _, rfl⟩
  | collecting all todo toPersist =>
    rcases todo with _ | ⟨⟨id, rt⟩, todo⟩
    · obtain ⟨rfl, rfl⟩ := Prod.mk.inj (Option.some.inj h)
      exact ⟨.refl s, _, rfl⟩
    · obtain ⟨r, hr, heq⟩ := Option.map_eq_some_iff.mp h
      simp only [] at heq
      split at heq
      all_goals obtain ⟨rfl, rfl⟩ := Prod.mk.inj heq
      all_goals exact ⟨settles_setRuntime hr (refreshed_completed env.now env.child), _, rfl⟩
  | persisting all toPersist =>
    rcases toPersist with _ | ⟨⟨id, m⟩, toPersist⟩
    · obtain ⟨rfl, rfl⟩ := Prod.mk.inj (Option.some.inj h)
      exact ⟨.refl s, _, rfl⟩
    · obtain ⟨rfl, rfl⟩ := Prod.mk.inj (Option.some.inj h)
      exact ⟨settles_write s env.ok id m, _, rfl⟩
  | evicting todo evicted =>
    rcases todo with _ | ⟨⟨id, rt⟩, todo⟩
    · obtain ⟨rfl, rfl⟩ := Prod.mk.inj (Option.some.inj h)
      exact ⟨.refl s, _, rfl⟩
    · obtain ⟨r, hr, heq⟩ := Option.map_eq_some_iff.mp h
      split at heq
      all_goals obtain ⟨rfl, rfl⟩ := Prod.mk.inj heq
      all_goals exact ⟨.refl s, _, rfl⟩
  | unlinking evicted =>
    obtain ⟨rfl, rfl⟩ := Prod.mk.inj (Option.some.inj h)
    exact ⟨⟨rfl, rfl, foldl_erase_sublist _ _, le_rfl, fun _ _ h => h⟩, _, rfl⟩
  | entombing evicted =>
    obtain ⟨rfl, rfl⟩ := Prod.mk.inj (Option.some.inj h)
    exact ⟨⟨rfl, rfl, .refl _, le_rfl, fun _ _ h => h⟩, _, rfl⟩
  | returned => cases h

/-! ### The invariant -/

/-- The limit is kept, and each reserved id is held by one start, which has not released it. -/
structure AdmissionInv (maxRunningSessions : ℕ) (s : SessionStore Id) : Prop where
  limit : s.runningCount + s.committing + s.starting.card ≤ maxRunningSessions
  reserved : ∀ id, id ∈ s.starting ↔ ∃ (i : ℕ) (op : Op Id), s.ops[i]? = some op ∧ op.reserves = some id
  apart : ∀ {i j : ℕ} {op op' : Op Id} {id : Id}, s.ops[i]? = some op → s.ops[j]? = some op' →
    op.flying = some id → op'.flying = some id → i = j
  released : ∀ {i : ℕ} {op : Op Id}, s.ops[i]? = some op → op.Released
  spawned : ∀ {i rt : ℕ} {op : Op Id}, s.ops[i]? = some op → op.runtime? = some rt → rt < s.runtimes.length
  published : ∀ e ∈ s.live.entries, e.2 < s.runtimes.length

section Invariant

variable {maxRunningSessions : ℕ} {s t : SessionStore Id}

omit [LinearOrder Id] in
/-- An id that is reserved is in flight. -/
theorem Op.flying_of_reserves {op : Op Id} {id : Id} (h : op.reserves = some id) : op.flying = some id := by
  unfold Op.reserves at h
  split at h
  next phase n =>
    by_cases hn : n = 0
    · rwa [if_pos hn] at h
    · rw [if_neg hn] at h
      cases h
  next => cases h

theorem runningCount_le (h : ∀ e ∈ s.live.entries, e.2 < s.runtimes.length) (hs : Settles s t) :
    t.runningCount ≤ s.runningCount :=
  calc t.live.entries.countP (fun e => t.isRunning e.2)
      ≤ t.live.entries.countP (fun e => s.isRunning e.2) :=
        List.countP_mono_left fun e he hrun => hs.running e.2 (h e (hs.live.subset he)) hrun
    _ ≤ s.live.entries.countP (fun e => s.isRunning e.2) := hs.live.countP_le

theorem commits_mono {op : Op Id} (hs : Settles s t) (hop : ∀ rt, op.runtime? = some rt → rt < s.runtimes.length)
    (h : t.commits op = true) : s.commits op = true := by
  unfold SessionStore.commits at h ⊢
  split at h
  next id rt n => exact hs.running rt (hop rt rfl) h
  next => cases h

/-- What only settles keeps the invariant. -/
theorem AdmissionInv.settled (h : AdmissionInv maxRunningSessions s) (hs : Settles s t) :
    AdmissionInv maxRunningSessions t := by
  have hcommitting : t.committing ≤ s.committing := by
    unfold SessionStore.committing
    rw [hs.ops]
    refine List.countP_mono_left fun op hmem hcommits => ?_
    obtain ⟨i, hi⟩ := List.mem_iff_getElem?.mp hmem
    exact commits_mono hs (fun rt => h.spawned hi) hcommits
  have hrunning := runningCount_le h.published hs
  refine ⟨?_, ?_, ?_, ?_, ?_, ?_⟩
  · rw [hs.starting]
    have := h.limit
    omega
  · rw [hs.starting, hs.ops]
    exact h.reserved
  · rw [hs.ops]
    exact h.apart
  · rw [hs.ops]
    exact h.released
  · rw [hs.ops]
    exact fun hi hrt => (h.spawned hi hrt).trans_le hs.length
  · exact fun e he => (h.published e (hs.live.subset he)).trans_le hs.length

omit [LinearOrder Id] in
/-- An operation of the list after one of them was replaced. -/
theorem getElem?_set_cases {ops : List (Op Id)} {k i : ℕ} {op' a : Op Id} (h : (ops.set k op')[i]? = some a) :
    i = k ∧ a = op' ∨ i ≠ k ∧ ops[i]? = some a := by
  by_cases hik : k = i
  · subst hik
    have hlt : k < ops.length := by
      have := (List.getElem?_eq_some_iff.mp h).1
      rwa [List.length_set] at this
    rw [List.getElem?_set_self hlt] at h
    exact .inl ⟨rfl, (Option.some.inj h).symm⟩
  · rw [List.getElem?_set_ne hik] at h
    exact .inr ⟨Ne.symm hik, h⟩

/-- An operation has taken a step: the parts of the invariant that do not look at what is reserved. -/
structure Stepped (s : SessionStore Id) (op op' : Op Id) : Prop where
  flying : op'.flying = none ∨ op'.flying = op.flying
  released : op'.Released
  spawned : ∀ rt, op'.runtime? = some rt → rt < s.runtimes.length

variable {k : ℕ} {op op' : Op Id}

theorem apart_set (h : AdmissionInv maxRunningSessions s) (hk : s.ops[k]? = some op)
    (hflying : ∀ id, op'.flying = some id → op.flying = some id ∨ ∀ (i : ℕ) (a : Op Id), s.ops[i]? = some a →
      a.flying ≠ some id)
    {i j : ℕ} {a b : Op Id} {id : Id} (hi : (s.ops.set k op')[i]? = some a) (hj : (s.ops.set k op')[j]? = some b)
    (ha : a.flying = some id) (hb : b.flying = some id) : i = j := by
  rcases getElem?_set_cases hi with ⟨rfl, rfl⟩ | ⟨hik, hi'⟩ <;>
    rcases getElem?_set_cases hj with ⟨rfl, rfl⟩ | ⟨hjk, hj'⟩
  · rfl
  · rcases hflying id ha with hop | hnone
    · exact h.apart hk hj' hop hb
    · exact absurd hb (hnone j b hj')
  · rcases hflying id hb with hop | hnone
    · exact h.apart hi' hk ha hop
    · exact absurd ha (hnone i a hi')
  · exact h.apart hi' hj' ha hb

theorem released_set (h : AdmissionInv maxRunningSessions s) (hop : op'.Released) {i : ℕ} {a : Op Id}
    (hi : (s.ops.set k op')[i]? = some a) : a.Released := by
  rcases getElem?_set_cases hi with ⟨rfl, rfl⟩ | ⟨-, hi'⟩
  · exact hop
  · exact h.released hi'

theorem spawned_set (h : AdmissionInv maxRunningSessions s)
    (hop : ∀ rt, op'.runtime? = some rt → rt < s.runtimes.length) {i rt : ℕ} {a : Op Id}
    (hi : (s.ops.set k op')[i]? = some a) (hrt : a.runtime? = some rt) : rt < s.runtimes.length := by
  rcases getElem?_set_cases hi with ⟨rfl, rfl⟩ | ⟨-, hi'⟩
  · exact hop rt hrt
  · exact h.spawned hi' hrt

/-- Who holds an id after a step of one operation. -/
theorem reserved_set (hk : s.ops[k]? = some op) (op' : Op Id) (id : Id) :
    (∃ (i : ℕ) (a : Op Id), (s.ops.set k op')[i]? = some a ∧ a.reserves = some id) ↔
      op'.reserves = some id ∨ ∃ (i : ℕ) (a : Op Id), i ≠ k ∧ s.ops[i]? = some a ∧ a.reserves = some id := by
  have hlt : k < s.ops.length := (List.getElem?_eq_some_iff.mp hk).1
  constructor
  · rintro ⟨i, a, hi, ha⟩
    rcases getElem?_set_cases hi with ⟨rfl, rfl⟩ | ⟨hik, hi'⟩
    · exact .inl ha
    · exact .inr ⟨i, a, hik, hi', ha⟩
  · rintro (hop | ⟨i, a, hik, hi, ha⟩)
    · exact ⟨k, op', List.getElem?_set_self hlt, hop⟩
    · exact ⟨i, a, (List.getElem?_set_ne (Ne.symm hik)).trans hi, ha⟩

theorem committing_set (hk : s.ops[k]? = some op) (op' : Op Id) :
    (s.ops.set k op').countP s.commits + (if s.commits op then 1 else 0) =
      s.committing + (if s.commits op' then 1 else 0) := by
  obtain ⟨hlt, hget⟩ := List.getElem?_eq_some_iff.mp hk
  have hpos : s.commits op = true → 0 < s.ops.countP s.commits := fun h =>
    List.countP_pos_iff.mpr ⟨op, List.mem_of_getElem? hk, h⟩
  rw [List.countP_set hlt, hget, SessionStore.committing]
  by_cases hop : s.commits op = true
  · have := hpos hop
    simp only [if_pos hop]
    omega
  · simp only [if_neg hop]
    omega

/-- An operation that goes on with what it holds keeps the invariant. -/
theorem AdmissionInv.replaced (h : AdmissionInv maxRunningSessions s) (hk : s.ops[k]? = some op)
    (hstepped : Stepped s op op') (hreserves : op'.reserves = op.reserves) (hcommits : s.commits op' = false) :
    AdmissionInv maxRunningSessions { s with ops := s.ops.set k op' } := by
  have hcount := committing_set hk op'
  refine ⟨?_, fun id => ?_, apart_set h hk fun id hid => ?_, released_set h hstepped.released,
    spawned_set h hstepped.spawned, h.published⟩
  · have := h.limit
    rw [hcommits] at hcount
    show s.runningCount + (s.ops.set k op').countP s.commits + s.starting.card ≤ maxRunningSessions
    have : (s.ops.set k op').countP s.commits ≤ s.committing := by
      rw [if_neg Bool.false_ne_true] at hcount
      omega
    omega
  · refine Iff.trans ?_ (reserved_set hk op' id).symm
    rw [h.reserved id, hreserves]
    constructor
    · rintro ⟨i, a, hi, ha⟩
      by_cases hik : i = k
      · rw [hik, hk] at hi
        rw [Option.some.inj hi]
        exact .inl ha
      · exact .inr ⟨i, a, hik, hi, ha⟩
    · rintro (ha | ⟨i, a, -, hi, ha⟩)
      · exact ⟨k, op, hk, ha⟩
      · exact ⟨i, a, hi, ha⟩
  · rcases hstepped.flying with hnone | hsame
    · rw [hnone] at hid
      cases hid
    · exact .inl (hsame ▸ hid)

/-- What settles while an operation goes on keeps the invariant. -/
theorem AdmissionInv.advanced (h : AdmissionInv maxRunningSessions s) (hs : Settles s t) (hk : s.ops[k]? = some op)
    (hstepped : Stepped t op op') (hreserves : op'.reserves = op.reserves) (hcommits : t.commits op' = false) :
    AdmissionInv maxRunningSessions { t with ops := s.ops.set k op' } :=
  hs.ops ▸ (h.settled hs).replaced (hs.ops ▸ hk) hstepped hreserves hcommits

/-! ### A start's steps -/

variable {phase : StartPhase Id} {n : ℕ} {id : Id}

/-- A start that holds an id and is to release it does so, once. -/
theorem AdmissionInv.releases_once (h : AdmissionInv maxRunningSessions s) (hk : s.ops[k]? = some (.start phase n))
    (hid : phase.flying = some id) (hn : n ≤ 1) : n + s.releases id = 1 := by
  unfold SessionStore.releases
  rcases Nat.eq_zero_or_pos n with hzero | hpos
  · have hreserves : (Op.start phase n).reserves = some id := by
      show (if n = 0 then phase.flying else none) = some id
      rw [if_pos hzero, hid]
    rw [if_pos ((h.reserved id).mpr ⟨k, _, hk, hreserves⟩), hzero]
  · obtain rfl : n = 1 := by omega
    rw [if_neg]
    intro hmem
    obtain ⟨i, op, hi, hop⟩ := (h.reserved id).mp hmem
    obtain rfl : i = k := h.apart hi hk (Op.flying_of_reserves hop) hid
    rw [hk] at hi
    cases hi
    cases hop

theorem AdmissionInv.release (h : AdmissionInv maxRunningSessions s) (hk : s.ops[k]? = some (.start phase n))
    (phase' : StartPhase Id) (hid : phase.flying = some id) (hn : n ≤ 1) (hflying : phase'.flying = none ∨ phase'.flying = some id)
    (hreleased : phase'.Released 1)
    (hspawned : ∀ rt, (Op.start phase' 1).runtime? = some rt → rt < s.runtimes.length)
    (hcommits : s.commits (.start phase' 1) = true → n = 0) :
    AdmissionInv maxRunningSessions
      { s.release id with ops := s.ops.set k (.start phase' (n + s.releases id)) } := by
  have honce := h.releases_once hk hid hn
  rw [honce]
  have hcount := committing_set hk (.start phase' 1)
  refine ⟨?_, fun id' => ?_, apart_set h hk fun id' hid' => ?_, released_set h (show (Op.start phase' 1).Released from hreleased),
    spawned_set h hspawned, h.published⟩
  · have hlimit := h.limit
    show s.runningCount + (s.ops.set k (.start phase' 1)).countP s.commits + (s.starting.erase id).card
      ≤ maxRunningSessions
    have hcard : (s.starting.erase id).card + s.releases id = s.starting.card := by
      unfold SessionStore.releases
      by_cases hmem : id ∈ s.starting
      · rw [if_pos hmem, Finset.card_erase_add_one hmem]
      · rw [if_neg hmem, Finset.erase_eq_of_notMem hmem]
        rfl
    by_cases hc : s.commits (.start phase' 1) = true
    · have hzero := hcommits hc
      rw [if_pos hc] at hcount
      omega
    · rw [if_neg hc] at hcount
      omega
  · refine Iff.trans ?_ (reserved_set hk (.start phase' 1) id').symm
    show id' ∈ s.starting.erase id ↔ _
    rw [Finset.mem_erase, h.reserved id']
    constructor
    · rintro ⟨hne, i, a, hi, ha⟩
      refine .inr ⟨i, a, ?_, hi, ha⟩
      rintro rfl
      rw [hk] at hi
      cases hi
      have hflies := Op.flying_of_reserves ha
      exact hne (Option.some.inj (hflies.symm.trans hid))
    · rintro (hnone | ⟨i, a, hik, hi, ha⟩)
      · cases hnone
      · refine ⟨?_, i, a, hi, ha⟩
        rintro rfl
        exact hik (h.apart hi hk (Op.flying_of_reserves ha) hid)
  · rcases hflying with hnone | hsame
    · have : phase'.flying = some id' := hid'
      rw [hnone] at this
      cases this
    · exact .inl (hid.trans (hsame.symm.trans hid'))

/-- A start takes an id that is not in flight, where the count leaves room for one. -/
theorem AdmissionInv.reserve (h : AdmissionInv maxRunningSessions s) (hk : s.ops[k]? = some (.start phase 0))
    (hflies : phase.flying = none) (hroom : s.runningCount + s.committing + s.starting.card < maxRunningSessions)
    (hfresh : ∀ op ∈ s.ops, op.flying ≠ some id) (metadata : SessionMeta) :
    AdmissionInv maxRunningSessions
      { s with starting := insert id s.starting, ops := s.ops.set k (.start (.inserting id metadata) 0) } := by
  have hcount := committing_set hk (.start (.inserting id metadata) 0)
  refine ⟨?_, fun id' => ?_, apart_set h hk fun id' hid' => ?_,
    released_set h (show (Op.start (.inserting id metadata) 0).Released from rfl), spawned_set h fun rt hrt => ?_, h.published⟩
  · show s.runningCount + (s.ops.set k (.start (.inserting id metadata) 0)).countP s.commits
      + (insert id s.starting).card ≤ maxRunningSessions
    have hcard := Finset.card_insert_le id s.starting
    rw [show s.commits (.start (.inserting id metadata) 0) = false from rfl, if_neg Bool.false_ne_true] at hcount
    omega
  · refine Iff.trans ?_ (reserved_set hk (.start (.inserting id metadata) 0) id').symm
    show id' ∈ insert id s.starting ↔ _
    rw [Finset.mem_insert, h.reserved id']
    constructor
    · rintro (rfl | ⟨i, a, hi, ha⟩)
      · exact .inl rfl
      · refine .inr ⟨i, a, ?_, hi, ha⟩
        rintro rfl
        rw [hk] at hi
        cases hi
        have hflies' := Op.flying_of_reserves ha
        rw [show (Op.start phase 0).flying = none from hflies] at hflies'
        cases hflies'
    · rintro (hself | ⟨i, a, -, hi, ha⟩)
      · exact .inl (Option.some.inj hself).symm
      · exact .inr ⟨i, a, hi, ha⟩
  · obtain rfl : id = id' := Option.some.inj hid'
    exact .inr fun i a hi => hfresh a (List.mem_of_getElem? hi)
  · cases hrt

theorem countP_insertEntry_le (p : Id × ℕ → Bool) (rt : ℕ) : ∀ es : List (Id × ℕ),
    (SortedMap.insertEntry id rt es).countP p ≤ es.countP p + (if p (id, rt) then 1 else 0)
  | [] => by rw [SortedMap.insertEntry, List.countP_singleton, List.countP_nil, Nat.zero_add]
  | e :: es => by
    have ih := countP_insertEntry_le p rt es
    unfold SortedMap.insertEntry
    split
    · rw [List.countP_cons]
    · split
      · rw [List.countP_cons, List.countP_cons]
        omega
      · rw [List.countP_cons, List.countP_cons]
        omega

/-- A committed session comes into the table. -/
theorem AdmissionInv.publish {rt : ℕ} (h : AdmissionInv maxRunningSessions s)
    (hk : s.ops[k]? = some (.start (.publishing id rt) n)) :
    AdmissionInv maxRunningSessions
      { s with live := s.live.insert id rt, ops := s.ops.set k (.start (.returned (.committed id)) n) } := by
  have hcount := committing_set hk (.start (.returned (.committed id)) n)
  have hn : n = 1 := h.released hk
  subst hn
  refine ⟨?_, fun id' => ?_, apart_set h hk fun id' hid' => ?_,
    released_set h (show (Op.start (.returned (.committed id)) 1).Released from rfl),
    spawned_set h fun rt' hrt' => ?_, fun e he => ?_⟩
  · have hlimit := h.limit
    show (SortedMap.insertEntry id rt s.live.entries).countP (fun e => s.isRunning e.2)
      + (s.ops.set k (.start (.returned (.committed id)) 1)).countP s.commits + s.starting.card ≤ maxRunningSessions
    have hlive : (SortedMap.insertEntry id rt s.live.entries).countP (fun e => s.isRunning e.2)
        ≤ s.runningCount + (if s.isRunning rt then 1 else 0) := countP_insertEntry_le _ rt s.live.entries
    rw [show s.commits (.start (.returned (.committed id)) 1) = false from rfl, if_neg Bool.false_ne_true,
      show s.commits (.start (.publishing id rt) 1) = s.isRunning rt from rfl] at hcount
    omega
  · refine Iff.trans ?_ (reserved_set hk (.start (.returned (.committed id)) 1) id').symm
    rw [h.reserved id']
    constructor
    · rintro ⟨i, a, hi, ha⟩
      refine .inr ⟨i, a, ?_, hi, ha⟩
      rintro rfl
      rw [hk] at hi
      cases hi
      cases ha
    · rintro (hnone | ⟨i, a, -, hi, ha⟩)
      · cases hnone
      · exact ⟨i, a, hi, ha⟩
  · cases hid'
  · cases hrt'
  · rcases SortedMap.mem_insertEntry he with rfl | he
    · exact h.spawned hk rfl
    · exact h.published e he

/-- A row, a directory or nothing changes. -/
theorem settles_rows (s : SessionStore Id) (rows : SortedMap Id SessionMeta) (dirs : Finset Id) :
    Settles s { s with rows := rows, dirs := dirs } :=
  ⟨rfl, rfl, .refl _, le_rfl, fun _ _ h => h⟩

theorem settles_spawned (s : SessionStore Id) (r : Runtime) : Settles s { s with runtimes := s.runtimes ++ [r] } := by
  refine ⟨rfl, rfl, .refl _, ?_, fun rt hrt h => ?_⟩
  · show s.runtimes.length ≤ (s.runtimes ++ [r]).length
    rw [List.length_append]
    exact Nat.le_add_right _ _
  · unfold SessionStore.isRunning at h ⊢
    rwa [List.getElem?_append_left hrt] at h

/-- A step of a start that neither reserves, releases nor publishes. -/
structure Quiet (s t : SessionStore Id) (phase : StartPhase Id) (n : ℕ) (op' : Op Id) : Prop where
  settles : Settles s t
  stepped : Stepped t (.start phase n) op'
  reserves : op'.reserves = (Op.start phase n).reserves
  commits : t.commits op' = false

theorem Quiet.inv (h : AdmissionInv maxRunningSessions s) (hk : s.ops[k]? = some (.start phase n))
    (hquiet : Quiet s t phase n op') : AdmissionInv maxRunningSessions { t with ops := s.ops.set k op' } :=
  h.advanced hquiet.settles hk hquiet.stepped hquiet.reserves hquiet.commits

/-- The steps of the undoing, after its release. -/
theorem quiet_abort {env : Env Id} {stage : AbortStage} (hstage : stage ≠ .release)
    (h : startStep maxRunningSessions s env n (.aborting id stage) = some (t, op')) (hn : n = 1) :
    Quiet s t (.aborting id stage) n op' := by
  have hgoing : ∀ (t : SessionStore Id) (stage' : AbortStage), Settles s t → stage' ≠ .release →
      Quiet s t (.aborting id stage) n (.start (.aborting id stage') n) := fun t stage' hs hstage' =>
    ⟨hs, ⟨.inr rfl, by
      cases stage' with
      | release => exact absurd rfl hstage'
      | _ => exact hn, fun rt hrt => by cases hrt⟩, rfl, rfl⟩
  have hreturned : ∀ (t : SessionStore Id) (clean : Bool), Settles s t →
      Quiet s t (.aborting id stage) n (.start (.returned (.aborted id clean)) n) := fun t clean hs =>
    ⟨hs, ⟨.inl rfl, hn, fun rt hrt => by cases hrt⟩, by rw [hn]; rfl, rfl⟩
  cases stage with
  | release => exact absurd rfl hstage
  | findDir =>
    obtain ⟨rfl, rfl⟩ := Prod.mk.inj (Option.some.inj h)
    refine hgoing s _ (.refl s) ?_
    split <;> exact fun hne => by cases hne
  | removeDir =>
    simp only [startStep] at h
    split at h
    · obtain ⟨rfl, rfl⟩ := Prod.mk.inj (Option.some.inj h)
      exact hgoing _ _ (settles_rows s _ _) fun hne => by cases hne
    · obtain ⟨rfl, rfl⟩ := Prod.mk.inj (Option.some.inj h)
      exact hreturned s _ (.refl s)
  | deleteRow =>
    simp only [startStep] at h
    split at h
    · obtain ⟨rfl, rfl⟩ := Prod.mk.inj (Option.some.inj h)
      exact hreturned _ _ (settles_rows s _ _)
    · obtain ⟨rfl, rfl⟩ := Prod.mk.inj (Option.some.inj h)
      exact hgoing s _ (.refl s) fun hne => by cases hne
  | getRow =>
    simp only [startStep] at h
    split at h
    · obtain ⟨rfl, rfl⟩ := Prod.mk.inj (Option.some.inj h)
      exact hgoing s _ (.refl s) fun hne => by cases hne
    · obtain ⟨rfl, rfl⟩ := Prod.mk.inj (Option.some.inj h)
      exact hreturned s _ (.refl s)
  | updateRow metadata =>
    obtain ⟨rfl, rfl⟩ := Prod.mk.inj (Option.some.inj h)
    exact hreturned _ _ (settles_write s env.ok id metadata)

/-- A step of a start, one case for each phase. -/
theorem admissionInv_start {env : Env Id} (h : AdmissionInv maxRunningSessions s)
    (hk : s.ops[k]? = some (.start phase n)) (hcounted : Counted s (.advance k env))
    (hstep : startStep maxRunningSessions s env n phase = some (t, op')) :
    AdmissionInv maxRunningSessions { t with ops := s.ops.set k op' } := by
  have hreleased : phase.Released n := h.released hk
  cases phase with
  | called spec =>
    obtain ⟨rfl, rfl⟩ := Prod.mk.inj (Option.some.inj hstep)
    refine Quiet.inv h hk ⟨.refl s, ⟨.inl rfl, hreleased, fun rt hrt => by cases hrt⟩, ?_, rfl⟩
    show (if n = 0 then none else none) = (if n = 0 then none else none)
    rfl
  | loaded spec count known =>
    have hn : n = 0 := hreleased
    subst hn
    have hrefused : Quiet s s (.loaded spec count known) 0 (.start (.returned .refused) 0) :=
      ⟨.refl s, ⟨.inl rfl, hreleased, fun rt hrt => by cases hrt⟩, rfl, rfl⟩
    simp only [startStep] at hstep
    by_cases hfull : maxRunningSessions ≤ count + s.starting.card
    · rw [if_pos hfull] at hstep
      obtain ⟨rfl, rfl⟩ := Prod.mk.inj (Option.some.inj hstep)
      exact Quiet.inv h hk hrefused
    rw [if_neg hfull] at hstep
    by_cases hok : env.ok = false
    · rw [if_pos hok] at hstep
      obtain ⟨rfl, rfl⟩ := Prod.mk.inj (Option.some.inj hstep)
      exact Quiet.inv h hk hrefused
    rw [if_neg hok] at hstep
    by_cases hdrawn : env.id ∈ known ∨ env.id ∈ s.starting
    · rw [if_pos hdrawn] at hstep
      cases hstep
    rw [if_neg hdrawn] at hstep
    obtain ⟨rfl, rfl⟩ := Prod.mk.inj (Option.some.inj hstep)
    simp only [Counted, hk] at hcounted
    obtain ⟨hcount, hfresh⟩ := hcounted (eq_true_of_ne_false hok)
    exact h.reserve hk rfl (by omega) hfresh spec.metadata
  | inserting id metadata =>
    simp only [startStep] at hstep
    split at hstep
    · obtain ⟨rfl, rfl⟩ := Prod.mk.inj (Option.some.inj hstep)
      exact Quiet.inv h hk ⟨settles_rows s _ _, ⟨.inr rfl, hreleased, fun rt hrt => by cases hrt⟩, rfl, rfl⟩
    · obtain ⟨rfl, rfl⟩ := Prod.mk.inj (Option.some.inj hstep)
      exact Quiet.inv h hk ⟨.refl s, ⟨.inr rfl, hreleased, fun rt hrt => by cases hrt⟩, rfl, rfl⟩
  | insertFailed id =>
    obtain ⟨rfl, rfl⟩ := Prod.mk.inj (Option.some.inj hstep)
    have hn : n = 0 := hreleased
    exact h.release hk (.returned (.notInserted id)) rfl (by omega) (.inl rfl) rfl
      (fun rt hrt => by cases hrt) fun _ => hn
  | prepared id metadata =>
    simp only [startStep] at hstep
    have hn : n = 0 := hreleased
    split at hstep
    · obtain ⟨rfl, rfl⟩ := Prod.mk.inj (Option.some.inj hstep)
      exact Quiet.inv h hk ⟨settles_rows s _ _, ⟨.inr rfl, hreleased, fun rt hrt => by cases hrt⟩, rfl, rfl⟩
    · obtain ⟨rfl, rfl⟩ := Prod.mk.inj (Option.some.inj hstep)
      exact Quiet.inv h hk ⟨.refl s, ⟨.inr rfl, show n ≤ 1 by omega, fun rt hrt => by cases hrt⟩, rfl, rfl⟩
  | housed id metadata =>
    simp only [startStep] at hstep
    have hn : n = 0 := hreleased
    split at hstep
    · obtain ⟨rfl, rfl⟩ := Prod.mk.inj (Option.some.inj hstep)
      refine Quiet.inv h hk ⟨settles_spawned s _, ⟨.inr rfl, hreleased, fun rt hrt => ?_⟩, rfl, rfl⟩
      obtain rfl : s.runtimes.length = rt := Option.some.inj hrt
      show s.runtimes.length < (s.runtimes ++ [_]).length
      rw [List.length_append]
      exact Nat.lt_succ_self _
    · obtain ⟨rfl, rfl⟩ := Prod.mk.inj (Option.some.inj hstep)
      exact Quiet.inv h hk ⟨.refl s, ⟨.inr rfl, show n ≤ 1 by omega, fun rt hrt => by cases hrt⟩, rfl, rfl⟩
  | spawned id metadata rt =>
    have hspawned : ∀ rt', some rt = some rt' → rt' < s.runtimes.length := fun rt' hrt' => by
      cases hrt'
      exact h.spawned hk rfl
    simp only [startStep] at hstep
    split at hstep
    · obtain ⟨rfl, rfl⟩ := Prod.mk.inj (Option.some.inj hstep)
      exact Quiet.inv h hk ⟨settles_updateSession s id metadata, ⟨.inr rfl, hreleased, hspawned⟩, rfl, rfl⟩
    · obtain ⟨rfl, rfl⟩ := Prod.mk.inj (Option.some.inj hstep)
      exact Quiet.inv h hk ⟨.refl s, ⟨.inr rfl, hreleased, hspawned⟩, rfl, rfl⟩
  | updated id rt ok =>
    have hn : n = 0 := hreleased
    have hspawned : ∀ rt', some rt = some rt' → rt' < s.runtimes.length := fun rt' hrt' => by
      cases hrt'
      exact h.spawned hk rfl
    obtain ⟨rfl, rfl⟩ := Prod.mk.inj (Option.some.inj hstep)
    cases ok with
    | true =>
      exact h.release hk (.publishing id rt) rfl (by omega) (.inr rfl) rfl hspawned fun _ => hn
    | false =>
      exact h.release hk (.cleanup id rt) rfl (by omega) (.inr rfl) rfl hspawned fun _ => hn
  | publishing id rt =>
    obtain ⟨rfl, rfl⟩ := Prod.mk.inj (Option.some.inj hstep)
    exact h.publish hk
  | cleanup id rt =>
    obtain ⟨r, hr, heq⟩ := Option.map_eq_some_iff.mp hstep
    obtain ⟨rfl, rfl⟩ := Prod.mk.inj heq
    have hn : n = 1 := hreleased
    exact Quiet.inv h hk ⟨settles_setRuntime hr fun _ => rfl,
      ⟨.inr rfl, show n ≤ 1 by omega, fun rt hrt => by cases hrt⟩, rfl, rfl⟩
  | aborting id stage =>
    by_cases hstage : stage = .release
    · subst hstage
      obtain ⟨rfl, rfl⟩ := Prod.mk.inj (Option.some.inj hstep)
      exact h.release hk (.aborting id .findDir) rfl hreleased (.inr rfl) rfl
        (fun rt hrt => by cases hrt) fun hcommits => by cases hcommits
    · refine Quiet.inv h hk (quiet_abort hstage hstep ?_)
      cases stage with
      | release => exact absurd rfl hstage
      | _ => exact hreleased
  | returned result => cases hstep

theorem admissionInv_onDisk (maxRunningSessions : ℕ) (rows : SortedMap Id SessionMeta) (dirs : Finset Id) :
    AdmissionInv maxRunningSessions (.onDisk rows dirs) where
  limit := Nat.zero_le _
  reserved := fun id => ⟨fun h => absurd h (Finset.notMem_empty id), fun ⟨_, _, h, _⟩ => by cases h⟩
  apart := fun h => by cases h
  released := fun h => by cases h
  spawned := fun h => by cases h
  published := fun e h => by cases h

theorem AdmissionInv.called (h : AdmissionInv maxRunningSessions s) (request : Request Id) :
    AdmissionInv maxRunningSessions { s with ops := s.ops ++ [request.op] } := by
  have hflying : request.op.flying = none := by cases request <;> rfl
  have hget : ∀ {i : ℕ} {a : Op Id}, (s.ops ++ [request.op])[i]? = some a → a = request.op ∨ s.ops[i]? = some a :=
    fun {i a} hi => by
      by_cases hlt : i < s.ops.length
      · rw [List.getElem?_append_left hlt] at hi
        exact .inr hi
      · rw [List.getElem?_append_right (Nat.not_lt.mp hlt)] at hi
        exact .inl (List.mem_singleton.mp (List.mem_of_getElem? hi))
  have hold : ∀ {i : ℕ} {a : Op Id} {id : Id}, (s.ops ++ [request.op])[i]? = some a → a.flying = some id →
      s.ops[i]? = some a := fun hi ha => by
    rcases hget hi with rfl | hi
    · rw [hflying] at ha
      cases ha
    · exact hi
  refine ⟨?_, fun id => ?_, fun hi hj ha hb => h.apart (hold hi ha) (hold hj hb) ha hb, fun hi => ?_,
    fun hi hrt => ?_, h.published⟩
  · have hlimit := h.limit
    show s.runningCount + (s.ops ++ [request.op]).countP s.commits + s.starting.card ≤ maxRunningSessions
    have hquiet : s.commits request.op = false := by cases request <;> rfl
    rw [List.countP_append, List.countP_singleton, hquiet]
    exact hlimit
  · show id ∈ s.starting ↔ _
    rw [h.reserved id]
    constructor
    · rintro ⟨i, a, hi, ha⟩
      exact ⟨i, a, (List.getElem?_append_left (List.getElem?_eq_some_iff.mp hi).1).trans hi, ha⟩
    · rintro ⟨i, a, hi, ha⟩
      exact ⟨i, a, hold hi (Op.flying_of_reserves ha), ha⟩
  · rcases hget hi with rfl | hi
    · cases request <;> first | exact rfl | exact trivial
    · exact h.released hi
  · rcases hget hi with rfl | hi
    · cases request <;> cases hrt
    · exact h.spawned hi hrt

/-- A step that takes nothing into account but what there is keeps the invariant. -/
theorem admissionInv_step {action : Action Id} (h : AdmissionInv maxRunningSessions s) (hcounted : Counted s action)
    (hstep : s.step maxRunningSessions action = some t) : AdmissionInv maxRunningSessions t := by
  cases action with
  | call request =>
    rw [step_call hstep]
    exact h.called request
  | advance k env =>
    obtain ⟨op, t', op', hk, hop, rfl⟩ := step_advance hstep
    have hother : ∀ op op' : Op Id, op.flying = none → op'.flying = none → op'.Released →
        op.reserves = none → op'.reserves = none → op'.runtime? = none → t'.commits op' = false → s.ops[k]? = some op →
        Settles s t' → AdmissionInv maxRunningSessions { t' with ops := s.ops.set k op' } :=
      fun op op' _ hflying hreleased hres hres' hrt hcommits hk hs =>
        h.advanced hs hk ⟨.inl hflying, hreleased, fun rt hsome => by rw [hrt] at hsome; cases hsome⟩
          (hres'.trans hres.symm) hcommits
    cases op with
    | start phase n => exact admissionInv_start h hk hcounted hop
    | delete id force phase =>
      obtain ⟨hs, phase', rfl⟩ := settles_delete hop
      exact hother _ _ rfl rfl trivial rfl rfl rfl rfl hk hs
    | update id change phase =>
      obtain ⟨hs, phase', rfl⟩ := settles_update hop
      exact hother _ _ rfl rfl trivial rfl rfl rfl rfl hk hs
    | notify id enabled phase =>
      obtain ⟨hs, phase', rfl⟩ := settles_notify hop
      exact hother _ _ rfl rfl trivial rfl rfl rfl rfl hk hs
    | sweep phase =>
      obtain ⟨hs, phase', rfl⟩ := settles_sweep hop
      exact hother _ _ rfl rfl trivial rfl rfl rfl rfl hk hs
  | runtime rt event =>
    obtain ⟨r, hr, rfl⟩ := step_runtime hstep
    exact h.settled (settles_setRuntime hr fun hdone => Runtime.apply_completed hdone event)
  | forget id =>
    rw [step_forget hstep]
    exact h.settled ⟨rfl, rfl, .refl _, le_rfl, fun _ _ h => h⟩
  | restart ok =>
    obtain rfl : s.restarted ok = t := Option.some.inj hstep
    have hfresh := admissionInv_onDisk maxRunningSessions s.rows s.dirs
    exact ⟨hfresh.limit, hfresh.reserved, hfresh.apart, hfresh.released, hfresh.spawned, hfresh.published⟩
  | reconcile ok =>
    rcases step_reconcile hstep with rfl | ⟨id, metadata, todo, -, rfl⟩
    · exact h.settled ⟨rfl, rfl, .refl _, le_rfl, fun _ _ h => h⟩
    · cases ok with
      | true => exact h.settled ⟨rfl, rfl, .refl _, le_rfl, fun _ _ h => h⟩
      | false => exact h.settled ⟨rfl, rfl, .refl _, le_rfl, fun _ _ h => h⟩

/-- **Admission keeps the limit.** In every run whose reservations have counted every running
session: the running sessions and the reserved ids together are at most the limit; an id is
reserved exactly while a start that has taken it has not released it; and a start that has
returned has released its id once. -/
theorem admission_limit {rows : SortedMap Id SessionMeta} {dirs : Finset Id} {as : List (Action Id)}
    (hrun : Runs.run (SessionStore.step maxRunningSessions) (.onDisk rows dirs) as = some t)
    (hcounted : Runs.Meets (SessionStore.step maxRunningSessions) Counted (.onDisk rows dirs) as) :
    t.runningCount + t.starting.card ≤ maxRunningSessions ∧
    (∀ id, id ∈ t.starting ↔ ∃ op ∈ t.ops, op.reserves = some id) ∧
    ∀ result n, .start (.returned result) n ∈ t.ops → n = if result = .refused then 0 else 1 := by
  have h : AdmissionInv maxRunningSessions t :=
    Runs.run_invariant_of_meets admissionInv_step hrun hcounted (admissionInv_onDisk maxRunningSessions rows dirs)
  refine ⟨?_, fun id => (h.reserved id).trans ?_, fun result n hmem => ?_⟩
  · have := h.limit
    omega
  · constructor
    · rintro ⟨i, op, hi, hop⟩
      exact ⟨op, List.mem_of_getElem? hi, hop⟩
    · rintro ⟨op, hmem, hop⟩
      obtain ⟨i, hi⟩ := List.mem_iff_getElem?.mp hmem
      exact ⟨i, op, hi, hop⟩
  · obtain ⟨i, hi⟩ := List.mem_iff_getElem?.mp hmem
    have hreleased : (StartPhase.returned result).Released n := h.released hi
    by_cases hrefused : result = .refused
    · rw [if_pos hrefused]
      rw [hrefused] at hreleased
      exact hreleased
    · rw [if_neg hrefused]
      cases result with
      | refused => exact absurd rfl hrefused
      | _ => exact hreleased

end Invariant

/-! ### Two starts -/

/-- A call succeeds, and the generator draws the id. -/
def draws (id : ℕ) : Env ℕ := ⟨true, 0, .running, .running, id, some 100⟩

/-- A start with nothing special about it. -/
def plainStart : Request ℕ := .start ⟨none, [], true⟩

/-- A start runs through while another one has already read the table. -/
def crossing : List (Action ℕ) :=
  [.call plainStart, .call plainStart, .advance 0 (draws 1), .advance 1 (draws 2)] ++
    List.replicate 7 (.advance 0 (draws 1)) ++ [.advance 1 (draws 2)]

/-- One start after the other. -/
def inTurn : List (Action ℕ) :=
  [.call plainStart] ++ List.replicate 8 (.advance 0 (draws 1)) ++
    [.call plainStart, .advance 1 (draws 2), .advance 1 (draws 2)]

theorem admission_limit_in_turn : ∃ t : SessionStore ℕ,
    Runs.run (SessionStore.step 2) (.onDisk .empty ∅) inTurn = some t ∧ t.runningCount + t.starting.card ≤ 2 := by
  have hcounted : Runs.Meets (SessionStore.step 2) Counted (.onDisk .empty ∅) inTurn := by decide
  obtain ⟨t, hrun⟩ : ∃ t, Runs.run (SessionStore.step 2) (.onDisk .empty ∅) inTurn = some t :=
    Option.isSome_iff_exists.mp (by decide)
  exact ⟨t, hrun, (admission_limit hrun hcounted).1⟩

/-- The second start reserves on its count from before the first one was published. -/
theorem limit_exceeded : ∃ t : SessionStore ℕ,
    Runs.run (SessionStore.step 1) (.onDisk .empty ∅) crossing = some t ∧ t.runningCount + t.starting.card = 2 := by
  obtain ⟨t, hrun, hcount⟩ : ∃ t : SessionStore ℕ,
      Runs.run (SessionStore.step 1) (.onDisk .empty ∅) crossing = some t ∧
        decide (t.runningCount + t.starting.card = 2) = true := by
    apply (Option.any_eq_true _ _).mp
    decide
  exact ⟨t, hrun, of_decide_eq_true hcount⟩

end Store
end OpenRelay
