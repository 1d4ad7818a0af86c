/-
# End times of ended rows

A row whose status is a terminal one has an end time, and no other row has one: that is
what the age-based retention selects by. Every write of a row writes a snapshot of
metadata that some operation took earlier, so the property is about the snapshots in
flight too. It holds in every run in which no restart writes a row that a crash has left
running or stopping (`rows_dated`); a row that is reconciled so has failed without an end
time, and is never selected (`failed_undated`).

Key theorem: `endTimesInv_step`.
-/
import OpenRelay.Store.Operations

namespace OpenRelay
namespace Store

open Session (SessionStatus ExitCode TryWait)

variable {Id : Type*} [LinearOrder Id]

/-- The rows that the age-based retention selects. -/
def listStoppedSessionsOlderThan (rows : SortedMap Id SessionMeta) (cutoff : ℕ) : List (Id × SessionMeta) :=
  rows.entries.filter fun e => e.2.endedAt.any (· < cutoff) && isTerminal e.2.status

/-- The metadata that an operation has yet to write. -/
def Op.snapshots : Op Id → List SessionMeta
  | .start (.inserting _ m) _ | .start (.prepared _ m) _ | .start (.housed _ m) _ | .start (.spawned _ m _) _
  | .start (.aborting _ (.updateRow m)) _ => [m]
  | .update _ _ (.writing _ m) | .update _ _ (.writingRow m) | .notify _ _ (.writing _ m _) => [m]
  | .sweep (.collecting _ _ toPersist) | .sweep (.persisting _ toPersist) => toPersist.map Prod.snd
  | _ => []

/-- The rows and the runtimes have an end time exactly where they have ended. -/
structure Dated (s : SessionStore Id) : Prop where
  rows : ∀ e ∈ s.rows.entries, e.2.Sound
  runtimes : ∀ r ∈ s.runtimes, r.Sound

/-- No row is written that a crash has left running or stopping. -/
def NothingStale (s : SessionStore Id) : Action Id → Prop
  | .reconcile true => s.booting.getD [] = []
  | _ => True

instance (s : SessionStore Id) (action : Action Id) : Decidable (NothingStale s action) := by
  delta NothingStale
  match action with
  | .reconcile true => infer_instance
  | .call _ | .advance .. | .runtime .. | .forget _ | .restart _ | .reconcile false => exact .isTrue trivial

/-! ### One lemma for each kind of write -/

section Writes

variable {s : SessionStore Id} {m : SessionMeta} {r : Runtime} {id : Id}

theorem Dated.updateSession (h : Dated s) (hm : m.Sound) : Dated (s.updateSession id m) := by
  refine ⟨fun e he => ?_, h.runtimes⟩
  obtain ⟨e', he', rfl⟩ := List.mem_map.mp he
  split
  · exact hm
  · exact h.rows e' he'

theorem Dated.write (h : Dated s) (ok : Bool) (hm : m.Sound) : Dated (if ok then s.updateSession id m else s) := by
  split
  · exact h.updateSession hm
  · exact h

theorem Dated.insertRow (h : Dated s) (hm : m.Sound) : Dated { s with rows := s.rows.insert id m } := by
  refine ⟨fun e he => ?_, h.runtimes⟩
  rcases SortedMap.mem_insertEntry he with rfl | he
  · exact hm
  · exact h.rows e he

theorem Dated.eraseRow (h : Dated s) (id : Id) : Dated { s with rows := s.rows.erase id } :=
  ⟨fun e he => h.rows e (List.mem_of_mem_filter he), h.runtimes⟩

theorem Dated.setRuntime (h : Dated s) (hr : r.Sound) (rt : ℕ) : Dated (s.setRuntime rt r) := by
  refine ⟨h.rows, fun r' hmem => ?_⟩
  rcases List.mem_or_eq_of_mem_set hmem with hold | rfl
  · exact h.runtimes r' hold
  · exact hr

theorem Dated.appendRuntime (h : Dated s) (hr : r.Sound) : Dated { s with runtimes := s.runtimes ++ [r] } := by
  refine ⟨h.rows, fun r' hmem => ?_⟩
  rcases List.mem_append.mp hmem with hold | hnew
  · exact h.runtimes r' hold
  · rw [List.mem_singleton.mp hnew]
    exact hr

theorem Dated.runtime (h : Dated s) {rt : ℕ} (hr : s.runtimes[rt]? = some r) : r.Sound :=
  h.runtimes r (List.mem_of_getElem? hr)

theorem Dated.row (h : Dated s) (hm : s.rows.get? id = some m) : m.Sound := by
  obtain ⟨e, he, rfl⟩ := Option.map_eq_some_iff.mp hm
  exact h.rows e (List.mem_of_find?_eq_some he)

end Writes

/-! ### One lemma for each operation -/

section Steps

variable {maxRunningSessions : ℕ} {s t : SessionStore Id} {env : Env Id} {id : Id} {op' : Op Id}

omit [LinearOrder Id] in
theorem dated_none {op : Op Id} (hnone : op.snapshots = []) : ∀ m ∈ op.snapshots, m.Sound := fun m hm => by
  rw [hnone] at hm
  cases hm

omit [LinearOrder Id] in
theorem dated_one {op : Op Id} {m : SessionMeta} (hone : op.snapshots = [m]) (hm : m.Sound) :
    ∀ m ∈ op.snapshots, m.Sound := fun m' hm' => by
  rw [hone] at hm'
  rw [List.mem_singleton.mp hm']
  exact hm

theorem dated_start {n : ℕ} {phase : StartPhase Id} (h : Dated s)
    (hsnapshots : ∀ m ∈ (Op.start phase n).snapshots, m.Sound)
    (hstep : startStep maxRunningSessions s env n phase = some (t, op')) :
    Dated t ∧ ∀ m ∈ op'.snapshots, m.Sound := by
  cases phase with
  | called spec =>
    obtain ⟨rfl, rfl⟩ := Prod.mk.inj (Option.some.inj hstep)
    exact ⟨h, dated_none rfl⟩
  | loaded spec count known =>
    simp only [startStep] at hstep
    split at hstep
    · obtain ⟨rfl, rfl⟩ := Prod.mk.inj (Option.some.inj hstep)
      exact ⟨h, dated_none rfl⟩
    · split at hstep
      · obtain ⟨rfl, rfl⟩ := Prod.mk.inj (Option.some.inj hstep)
        exact ⟨h, dated_none rfl⟩
      · split at hstep
        · cases hstep
        · obtain ⟨rfl, rfl⟩ := Prod.mk.inj (Option.some.inj hstep)
          exact ⟨⟨h.rows, h.runtimes⟩, dated_one (m := spec.metadata) rfl rfl⟩
  | inserting id m =>
    have hm : m.Sound := hsnapshots m List.mem_cons_self
    simp only [startStep] at hstep
    split at hstep
    · obtain ⟨rfl, rfl⟩ := Prod.mk.inj (Option.some.inj hstep)
      exact ⟨h.insertRow hm, dated_one rfl hm⟩
    · obtain ⟨rfl, rfl⟩ := Prod.mk.inj (Option.some.inj hstep)
      exact ⟨h, dated_none rfl⟩
  | insertFailed id =>
    obtain ⟨rfl, rfl⟩ := Prod.mk.inj (Option.some.inj hstep)
    exact ⟨⟨h.rows, h.runtimes⟩, dated_none rfl⟩
  | prepared id m =>
    have hm : m.Sound := hsnapshots m List.mem_cons_self
    simp only [startStep] at hstep
    split at hstep
    · obtain ⟨rfl, rfl⟩ := Prod.mk.inj (Option.some.inj hstep)
      exact ⟨⟨h.rows, h.runtimes⟩, dated_one rfl hm⟩
    · obtain ⟨rfl, rfl⟩ := Prod.mk.inj (Option.some.inj hstep)
      exact ⟨h, dated_none rfl⟩
  | housed id m =>
    have hm : m.Sound := hsnapshots m List.mem_cons_self
    simp only [startStep] at hstep
    split at hstep
    · obtain ⟨rfl, rfl⟩ := Prod.mk.inj (Option.some.inj hstep)
      have hpid : SessionMeta.Sound { m with pid := env.pid } := hm
      exact ⟨h.appendRuntime ⟨hpid, fun _ hsome => by cases hsome⟩, dated_one rfl hpid⟩
    · obtain ⟨rfl, rfl⟩ := Prod.mk.inj (Option.some.inj hstep)
      exact ⟨h, dated_none rfl⟩
  | spawned id m rt =>
    have hm : m.Sound := hsnapshots m List.mem_cons_self
    simp only [startStep] at hstep
    split at hstep
    · obtain ⟨rfl, rfl⟩ := Prod.mk.inj (Option.some.inj hstep)
      exact ⟨h.updateSession hm, dated_none rfl⟩
    · obtain ⟨rfl, rfl⟩ := Prod.mk.inj (Option.some.inj hstep)
      exact ⟨h, dated_none rfl⟩
  | updated id rt ok =>
    obtain ⟨rfl, rfl⟩ := Prod.mk.inj (Option.some.inj hstep)
    refine ⟨⟨h.rows, h.runtimes⟩, dated_none ?_⟩
    cases ok <;> rfl
  | publishing id rt =>
    obtain ⟨rfl, rfl⟩ := Prod.mk.inj (Option.some.inj hstep)
    exact ⟨⟨h.rows, h.runtimes⟩, dated_none rfl⟩
  | cleanup id rt =>
    obtain ⟨r, hr, heq⟩ := Option.map_eq_some_iff.mp hstep
    obtain ⟨rfl, rfl⟩ := Prod.mk.inj heq
    exact ⟨h.setRuntime (Runtime.markCompleted_sound env.now none rfl) rt, dated_none rfl⟩
  | aborting id stage =>
    cases stage with
    | release =>
      obtain ⟨rfl, rfl⟩ := Prod.mk.inj (Option.some.inj hstep)
      exact ⟨⟨h.rows, h.runtimes⟩, dated_none rfl⟩
    | findDir =>
      obtain ⟨rfl, rfl⟩ := Prod.mk.inj (Option.some.inj hstep)
      refine ⟨h, dated_none ?_⟩
      split <;> rfl
    | removeDir =>
      simp only [startStep] at hstep
      split at hstep
      · obtain ⟨rfl, rfl⟩ := Prod.mk.inj (Option.some.inj hstep)
        exact ⟨⟨h.rows, h.runtimes⟩, dated_none rfl⟩
      · obtain ⟨rfl, rfl⟩ := Prod.mk.inj (Option.some.inj hstep)
        exact ⟨h, dated_none rfl⟩
    | deleteRow =>
      simp only [startStep] at hstep
      split at hstep
      · obtain ⟨rfl, rfl⟩ := Prod.mk.inj (Option.some.inj hstep)
        exact ⟨h.eraseRow id, dated_none rfl⟩
      · obtain ⟨rfl, rfl⟩ := Prod.mk.inj (Option.some.inj hstep)
        exact ⟨h, dated_none rfl⟩
    | getRow =>
      simp only [startStep] at hstep
      split at hstep
      · obtain ⟨rfl, rfl⟩ := Prod.mk.inj (Option.some.inj hstep)
        exact ⟨h, dated_one rfl rfl⟩
      · obtain ⟨rfl, rfl⟩ := Prod.mk.inj (Option.some.inj hstep)
        exact ⟨h, dated_none rfl⟩
    | updateRow m =>
      obtain ⟨rfl, rfl⟩ := Prod.mk.inj (Option.some.inj hstep)
      exact ⟨h.write env.ok (hsnapshots m List.mem_cons_self), dated_none rfl⟩
  | returned result => cases hstep

theorem dated_delete {force : Bool} {phase : DeletePhase} (h : Dated s)
    (hstep : deleteStep s env id force phase = some (t, op')) : Dated t ∧ ∀ m ∈ op'.snapshots, m.Sound := by
  cases phase with
  | called =>
    simp only [deleteStep] at hstep
    split at hstep
    all_goals obtain ⟨rfl, rfl⟩ := Prod.mk.inj (Option.some.inj hstep)
    all_goals exact ⟨h, dated_none rfl⟩
  | holding rt =>
    obtain ⟨r, hr, heq⟩ := Option.map_eq_some_iff.mp hstep
    obtain ⟨rfl, rfl⟩ := Prod.mk.inj heq
    exact ⟨h.setRuntime (Runtime.refreshStatus_sound (h.runtime hr) _ _) rt, dated_none rfl⟩
  | terminating rt =>
    obtain ⟨r, hr, heq⟩ := Option.map_eq_some_iff.mp hstep
    obtain ⟨rfl, rfl⟩ := Prod.mk.inj heq
    exact ⟨h.setRuntime (Runtime.terminate_sound (h.runtime hr) _ _ rfl) rt, dated_none rfl⟩
  | killing rt =>
    obtain ⟨r, hr, heq⟩ := Option.map_eq_some_iff.mp hstep
    obtain ⟨rfl, rfl⟩ := Prod.mk.inj heq
    exact ⟨h.setRuntime (Runtime.forceKill_sound (h.runtime hr) _ _ _ _) rt, dated_none rfl⟩
  | checkTombstone | findDir had kill =>
    obtain ⟨rfl, rfl⟩ := Prod.mk.inj (Option.some.inj hstep)
    exact ⟨h, dated_none rfl⟩
  | removeDir had kill =>
    simp only [deleteStep] at hstep
    split at hstep
    · obtain ⟨rfl, rfl⟩ := Prod.mk.inj (Option.some.inj hstep)
      exact ⟨⟨h.rows, h.runtimes⟩, dated_none rfl⟩
    · obtain ⟨rfl, rfl⟩ := Prod.mk.inj (Option.some.inj hstep)
      exact ⟨h, dated_none rfl⟩
  | deleteRow had kill =>
    simp only [deleteStep] at hstep
    split at hstep
    · obtain ⟨rfl, rfl⟩ := Prod.mk.inj (Option.some.inj hstep)
      exact ⟨h.eraseRow id, dated_none rfl⟩
    · obtain ⟨rfl, rfl⟩ := Prod.mk.inj (Option.some.inj hstep)
      exact ⟨h, dated_none rfl⟩
  | unlink had kill =>
    obtain ⟨rfl, rfl⟩ := Prod.mk.inj (Option.some.inj hstep)
    refine ⟨?_, dated_none rfl⟩
    split
    · exact ⟨h.rows, h.runtimes⟩
    · exact h
  | untomb kill =>
    obtain ⟨rfl, rfl⟩ := Prod.mk.inj (Option.some.inj hstep)
    exact ⟨⟨h.rows, h.runtimes⟩, dated_none rfl⟩
  | returned kill result => cases hstep

theorem dated_update {change : MetadataUpdate} {phase : UpdatePhase} (h : Dated s)
    (hsnapshots : ∀ m ∈ (Op.update id change phase).snapshots, m.Sound)
    (hstep : updateStep s env id change phase = some (t, op')) : Dated t ∧ ∀ m ∈ op'.snapshots, m.Sound := by
  cases phase with
  | called =>
    simp only [updateStep] at hstep
    split at hstep
    · obtain ⟨rfl, rfl⟩ := Prod.mk.inj (Option.some.inj hstep)
      exact ⟨h, dated_none rfl⟩
    · split at hstep
      all_goals obtain ⟨rfl, rfl⟩ := Prod.mk.inj (Option.some.inj hstep)
      all_goals exact ⟨h, dated_none rfl⟩
  | holding rt =>
    obtain ⟨r, hr, heq⟩ := Option.map_eq_some_iff.mp hstep
    split at heq
    · obtain ⟨rfl, rfl⟩ := Prod.mk.inj heq
      exact ⟨h, dated_none rfl⟩
    · obtain ⟨rfl, rfl⟩ := Prod.mk.inj heq
      have hadopted := change.adopt_sound (h.runtime hr)
      exact ⟨h.setRuntime hadopted rt, dated_one rfl hadopted.metadata⟩
  | writing rt m =>
    obtain ⟨rfl, rfl⟩ := Prod.mk.inj (Option.some.inj hstep)
    exact ⟨h.write env.ok (hsnapshots m List.mem_cons_self), dated_none rfl⟩
  | offline =>
    simp only [updateStep] at hstep
    split at hstep
    next m hm =>
      split at hstep
      · obtain ⟨rfl, rfl⟩ := Prod.mk.inj (Option.some.inj hstep)
        exact ⟨h, dated_none rfl⟩
      · obtain ⟨rfl, rfl⟩ := Prod.mk.inj (Option.some.inj hstep)
        have hrow : s.rows.get? id = some m := by
          split at hm
          · exact hm
          · cases hm
        have hsound : m.Sound := h.row hrow
        exact ⟨h, dated_one (m := change.apply m) rfl hsound⟩
    · obtain ⟨rfl, rfl⟩ := Prod.mk.inj (Option.some.inj hstep)
      exact ⟨h, dated_none rfl⟩
  | writingRow m =>
    obtain ⟨rfl, rfl⟩ := Prod.mk.inj (Option.some.inj hstep)
    exact ⟨h.write env.ok (hsnapshots m List.mem_cons_self), dated_none rfl⟩
  | returned ok => cases hstep

theorem dated_notify {enabled : Bool} {phase : NotifyPhase} (h : Dated s)
    (hsnapshots : ∀ m ∈ (Op.notify id enabled phase).snapshots, m.Sound)
    (hstep : notifyStep s env id enabled phase = some (t, op')) : Dated t ∧ ∀ m ∈ op'.snapshots, m.Sound := by
  cases phase with
  | called =>
    simp only [notifyStep] at hstep
    split at hstep
    all_goals obtain ⟨rfl, rfl⟩ := Prod.mk.inj (Option.some.inj hstep)
    all_goals exact ⟨h, dated_none rfl⟩
  | holding rt =>
    obtain ⟨r, hr, heq⟩ := Option.map_eq_some_iff.mp hstep
    simp only [] at heq
    split at heq
    · obtain ⟨rfl, rfl⟩ := Prod.mk.inj heq
      exact ⟨h, dated_none rfl⟩
    · obtain ⟨rfl, rfl⟩ := Prod.mk.inj heq
      have hset := Runtime.setNotificationsEnabled_sound (h.runtime hr) enabled
      exact ⟨h.setRuntime hset rt, dated_one rfl hset.metadata⟩
  | writing rt m previous =>
    simp only [notifyStep] at hstep
    split at hstep
    · obtain ⟨rfl, rfl⟩ := Prod.mk.inj (Option.some.inj hstep)
      exact ⟨h.updateSession (hsnapshots m List.mem_cons_self), dated_none rfl⟩
    · obtain ⟨rfl, rfl⟩ := Prod.mk.inj (Option.some.inj hstep)
      exact ⟨h, dated_none rfl⟩
  | rollback rt previous =>
    obtain ⟨r, hr, heq⟩ := Option.map_eq_some_iff.mp hstep
    obtain ⟨rfl, rfl⟩ := Prod.mk.inj heq
    exact ⟨h.setRuntime (Runtime.setNotificationsEnabled_sound (h.runtime hr) previous) rt, dated_none rfl⟩
  | returned ok => cases hstep

theorem dated_sweep {phase : SweepPhase Id} (h : Dated s)
    (hsnapshots : ∀ m ∈ (Op.sweep phase).snapshots, m.Sound)
    (hstep : sweepStep s env phase = some (t, op')) : Dated t ∧ ∀ m ∈ op'.snapshots, m.Sound := by
  cases phase with
  | called =>
    obtain ⟨rfl, rfl⟩ := Prod.mk.inj (Option.some.inj hstep)
    exact ⟨h, dated_none rfl⟩
  | collecting all todo toPersist =>
    rcases todo with _ | ⟨⟨id, rt⟩, todo⟩
    · obtain ⟨rfl, rfl⟩ := Prod.mk.inj (Option.some.inj hstep)
      exact ⟨h, hsnapshots⟩
    · obtain ⟨r, hr, heq⟩ := Option.map_eq_some_iff.mp hstep
      have hsound := Runtime.refreshStatus_sound (h.runtime hr) env.now env.child
      simp only [] at heq
      split at heq
      · obtain ⟨rfl, rfl⟩ := Prod.mk.inj heq
        have hpersisted : Runtime.Sound { (r.refreshStatus env.now env.child).1 with persisted := true } :=
          ⟨hsound.metadata, hsound.requested⟩
        refine ⟨h.setRuntime hpersisted rt, fun m hm => ?_⟩
        obtain ⟨e, he, rfl⟩ := List.mem_map.mp hm
        rcases List.mem_append.mp he with hold | hnew
        · exact hsnapshots e.2 (List.mem_map_of_mem hold)
        · rw [List.mem_singleton.mp hnew]
          exact hsound.metadata
      · obtain ⟨rfl, rfl⟩ := Prod.mk.inj heq
        exact ⟨h.setRuntime hsound rt, hsnapshots⟩
  | persisting all toPersist =>
    rcases toPersist with _ | ⟨⟨id, m⟩, toPersist⟩
    · obtain ⟨rfl, rfl⟩ := Prod.mk.inj (Option.some.inj hstep)
      exact ⟨h, dated_none rfl⟩
    · obtain ⟨rfl, rfl⟩ := Prod.mk.inj (Option.some.inj hstep)
      exact ⟨h.write env.ok (hsnapshots m List.mem_cons_self),
        fun m' hm' => hsnapshots m' (List.mem_cons_of_mem m hm')⟩
  | evicting todo evicted =>
    rcases todo with _ | ⟨⟨id, rt⟩, todo⟩
    · obtain ⟨rfl, rfl⟩ := Prod.mk.inj (Option.some.inj hstep)
      exact ⟨h, dated_none rfl⟩
    · obtain ⟨r, hr, heq⟩ := Option.map_eq_some_iff.mp hstep
      split at heq
      all_goals obtain ⟨rfl, rfl⟩ := Prod.mk.inj heq
      all_goals exact ⟨h, dated_none rfl⟩
  | unlinking evicted | entombing evicted =>
    obtain ⟨rfl, rfl⟩ := Prod.mk.inj (Option.some.inj hstep)
    exact ⟨⟨h.rows, h.runtimes⟩, dated_none rfl⟩
  | returned => cases hstep

/-! ### The invariant -/

/-- Rows, runtimes and snapshots in flight have an end time exactly where they have ended. -/
structure EndTimesInv (s : SessionStore Id) : Prop where
  dated : Dated s
  snapshots : ∀ op ∈ s.ops, ∀ m ∈ op.snapshots, m.Sound

theorem EndTimesInv.advanced {k : ℕ} (h : EndTimesInv s) (ht : Dated t ∧ ∀ m ∈ op'.snapshots, m.Sound) :
    EndTimesInv { t with ops := s.ops.set k op' } := by
  refine ⟨⟨ht.1.rows, ht.1.runtimes⟩, fun op hmem => ?_⟩
  rcases List.mem_or_eq_of_mem_set hmem with hold | rfl
  · exact h.snapshots op hold
  · exact ht.2

theorem endTimesInv_step {action : Action Id} (h : EndTimesInv s) (hstale : NothingStale s action)
    (hstep : s.step maxRunningSessions action = some t) : EndTimesInv t := by
  cases action with
  | call request =>
    rw [step_call hstep]
    refine ⟨⟨h.dated.rows, h.dated.runtimes⟩, fun op hmem => ?_⟩
    rcases List.mem_append.mp hmem with hold | hnew
    · exact h.snapshots op hold
    · rw [List.mem_singleton.mp hnew]
      refine dated_none ?_
      cases request <;> rfl
  | advance k env =>
    obtain ⟨op, t', op', hk, hop, rfl⟩ := step_advance hstep
    have hsnapshots := h.snapshots op (List.mem_of_getElem? hk)
    cases op with
    | start phase n => exact h.advanced (dated_start h.dated hsnapshots hop)
    | delete id force phase => exact h.advanced (dated_delete h.dated hop)
    | update id change phase => exact h.advanced (dated_update h.dated hsnapshots hop)
    | notify id enabled phase => exact h.advanced (dated_notify h.dated hsnapshots hop)
    | sweep phase => exact h.advanced (dated_sweep h.dated hsnapshots hop)
  | runtime rt event =>
    obtain ⟨r, hr, rfl⟩ := step_runtime hstep
    exact ⟨h.dated.setRuntime (Runtime.apply_sound (h.dated.runtime hr) event) rt, h.snapshots⟩
  | forget id =>
    rw [step_forget hstep]
    exact ⟨⟨h.dated.rows, h.dated.runtimes⟩, h.snapshots⟩
  | restart ok =>
    obtain rfl : s.restarted ok = t := Option.some.inj hstep
    exact ⟨⟨h.dated.rows, fun r hmem => by cases hmem⟩, fun op hmem => by cases hmem⟩
  | reconcile ok =>
    rcases step_reconcile hstep with rfl | ⟨id, m, todo, hbooting, rfl⟩
    · exact ⟨⟨h.dated.rows, h.dated.runtimes⟩, h.snapshots⟩
    · cases ok with
      | true =>
        have hempty : s.booting.getD [] = [] := hstale
        rw [hbooting] at hempty
        cases hempty
      | false => exact ⟨⟨h.dated.rows, h.dated.runtimes⟩, h.snapshots⟩

/-- **Ended rows carry their end time.** In every run from an empty disk in which no restart
writes a row that says running or stopping: a row has an end time exactly if its status is a
terminal one, and every row of an ended session is selected by the retention from some cutoff on. -/
theorem rows_dated {as : List (Action Id)}
    (hrun : Runs.run (SessionStore.step maxRunningSessions) (.onDisk .empty ∅) as = some t)
    (hstale : Runs.Meets (SessionStore.step maxRunningSessions) NothingStale (.onDisk .empty ∅) as) :
    ∀ e ∈ t.rows.entries, (isTerminal e.2.status = true ↔ e.2.endedAt.isSome = true) ∧
      (isTerminal e.2.status = true →
        ∃ ended, ∀ cutoff, ended < cutoff → e ∈ listStoppedSessionsOlderThan t.rows cutoff) := by
  have h : EndTimesInv t := Runs.run_invariant_of_meets endTimesInv_step hrun hstale
    ⟨⟨fun e hmem => (by cases hmem), fun r hmem => (by cases hmem)⟩, fun op hmem => (by cases hmem)⟩
  intro e hmem
  have hsound : isTerminal e.2.status = e.2.endedAt.isSome := h.dated.rows e hmem
  refine ⟨by rw [hsound], fun hterminal => ?_⟩
  obtain ⟨ended, hended⟩ := Option.isSome_iff_exists.mp (hsound.symm.trans hterminal)
  refine ⟨ended, fun cutoff hlt => List.mem_filter.mpr ⟨hmem, ?_⟩⟩
  rw [hended, hterminal, Option.any_some, decide_eq_true hlt]
  rfl

end Steps

/-! ### A crash -/

/-- A session's child exits, and the sweep writes its row. -/
def startedAndEnded : List (Action ℕ) :=
  let env : Env ℕ := ⟨true, 5, .running, .running, 1, some 100⟩
  [.call (.start ⟨none, [], true⟩)] ++ List.replicate 8 (.advance 0 env) ++
    [.runtime 0 (.refresh 7 (.exited 0)), .call .sweep] ++ List.replicate 4 (.advance 1 env)

theorem rows_dated_ended : ∃ t : SessionStore ℕ,
    Runs.run (SessionStore.step 1) (.onDisk .empty ∅) startedAndEnded = some t ∧
    t.rows.entries = [(1, ⟨none, [], .stopped, some 100, some 0, some 7, true⟩)] ∧
    ∀ e ∈ t.rows.entries, (isTerminal e.2.status = true ↔ e.2.endedAt.isSome = true) ∧
      (isTerminal e.2.status = true →
        ∃ ended, ∀ cutoff, ended < cutoff → e ∈ listStoppedSessionsOlderThan t.rows cutoff) := by
  obtain ⟨t, hrun, hrows⟩ : ∃ t : SessionStore ℕ,
      Runs.run (SessionStore.step 1) (.onDisk .empty ∅) startedAndEnded = some t ∧
        decide (t.rows.entries = [(1, ⟨none, [], .stopped, some 100, some 0, some 7, true⟩)]) = true := by
    apply (Option.any_eq_true _ _).mp
    decide
  have hstale : Runs.Meets (SessionStore.step 1) NothingStale (.onDisk .empty ∅) startedAndEnded := by decide
  exact ⟨t, hrun, of_decide_eq_true hrows, rows_dated hrun hstale⟩

/-- The daemon dies while the session runs; the next one writes that it has failed. -/
def crashed : List (Action ℕ) :=
  [.call (.start ⟨none, [], true⟩)] ++ List.replicate 8 (.advance 0 ⟨true, 5, .running, .running, 1, some 100⟩) ++
    [.restart true, .reconcile true, .reconcile true]

theorem failed_undated : ∃ t : SessionStore ℕ,
    Runs.run (SessionStore.step 1) (.onDisk .empty ∅) crashed = some t ∧
    t.rows.entries = [(1, ⟨none, [], .failed, some 100, none, none, true⟩)] ∧
    ∀ cutoff, listStoppedSessionsOlderThan t.rows cutoff = [] := by
  obtain ⟨t, hrun, hrows⟩ : ∃ t : SessionStore ℕ,
      Runs.run (SessionStore.step 1) (.onDisk .empty ∅) crashed = some t ∧
        decide (t.rows.entries = [(1, ⟨none, [], .failed, some 100, none, none, true⟩)]) = true := by
    apply (Option.any_eq_true _ _).mp
    decide
  have hrows := of_decide_eq_true hrows
  refine ⟨t, hrun, hrows, fun cutoff => ?_⟩
  unfold listStoppedSessionsOlderThan
  rw [hrows]
  rfl

end Store
end OpenRelay
