/-
# A run without one of its operations

What would a run have come to without one operation on a session's metadata? The same
run, less that operation's steps. Where an update that fails has changed nothing when it
took hold, or nothing takes a failing change of the notification setting for the session's
until it is rolled back, the runtimes end as they do in the whole run (`leftout_run`).

Key theorem: `opStep_over`.
-/
import OpenRelay.Store.Operations

namespace OpenRelay
namespace Store

open Session (SessionStatus ExitCode TryWait)

variable {Id : Type*} [LinearOrder Id]

/-! ### Operations on metadata -/

/-- The operation has returned. -/
def Op.idle : Op Id → Bool
  | .start (.returned _) _ | .delete _ _ (.returned ..) | .update _ _ (.returned _) | .notify _ _ (.returned _)
  | .sweep .returned => true
  | _ => false

/-- Nothing is in flight but updates, changes of the setting and sweeps. -/
def Op.onMetadata : Op Id → Bool
  | .start (.returned _) _ | .delete _ _ (.returned ..) | .update .. | .notify .. | .sweep _ => true
  | _ => false

/-- An update or a change of the setting. -/
def Op.edits : Op Id → Bool
  | .update .. | .notify .. => true
  | _ => false

def Op.succeeded : Op Id → Bool
  | .update _ _ (.returned true) | .notify _ _ (.returned true) => true
  | _ => false

/-- The setting that a change of it will roll back to, should its write fail. -/
def Op.rollsBack : Op Id → Option (ℕ × Bool)
  | .notify _ _ (.writing rt _ previous) | .notify _ _ (.rollback rt previous) => some (rt, previous)
  | _ => none

/-- No start, no delete and no restart. -/
def Action.onMetadata : Action Id → Bool
  | .call (.start _) | .call (.delete ..) | .restart _ | .reconcile _ => false
  | _ => true

/-- A step of this operation. -/
def Action.advances (k : ℕ) : Action Id → Bool
  | .advance j _ => j == k
  | _ => false

/-! ### Leaving an operation out -/

/-- The runtimes as they are without a change of the setting. -/
def undo (change : Option (ℕ × Bool)) (runtimes : List Runtime) : List Runtime :=
  match change with
  | some (rt, previous) => runtimes.modify rt fun r => r.setNotificationsEnabled previous
  | none => runtimes

/-- The store without an operation's change, and with these operations. -/
def SessionStore.over (s : SessionStore Id) (change : Option (ℕ × Bool)) (ops : List (Op Id)) : SessionStore Id :=
  { s with runtimes := undo change s.runtimes, ops := ops }

/-- The state as it is without the steps of operation `k`, which was called as `op₀`. -/
def leaveOut (k : ℕ) (op₀ : Op Id) (s : SessionStore Id) : SessionStore Id :=
  s.over ((s.ops[k]?).bind Op.rollsBack) (s.ops.set k op₀)

/-- The operation's next step changes this runtime's setting, or takes what it has of it. -/
def takes (s : SessionStore Id) (env : Env Id) (rt : ℕ) : Op Id → Bool
  | .update _ _ (.holding rt') | .notify _ _ (.holding rt') | .notify _ _ (.rollback rt' _) => rt' == rt
  | .sweep (.collecting _ ((_, rt') :: _) _) =>
    rt' == rt && (s.runtimes[rt]?).any fun r =>
      let r := (r.refreshStatus env.now env.child).1
      r.isCompleted && !r.persisted
  | _ => false

/-- What operation `k` does to a runtime does not show: as an update it asks for what there is,
and while it may roll the setting back no other operation takes it for the session's. -/
def Harmless (k : ℕ) (s : SessionStore Id) : Action Id → Prop
  | .advance j env =>
    match s.ops[k]? with
    | some (.update _ change (.holding rt)) =>
      j = k → ∀ r ∈ s.runtimes[rt]?, (change.notificationsEnabled.isSome = true ∧ r.isCompleted = true) ∨ change.adopt r = r
    | some op =>
      match op.rollsBack with
      | some (rt, _) => j ≠ k → ∀ other ∈ s.ops[j]?, takes s env rt other = false
      | none => True
    | none => True
  | _ => True

instance (k : ℕ) (s : SessionStore Id) (action : Action Id) : Decidable (Harmless k s action) := by
  delta Harmless
  match action with
  | .advance j env =>
    dsimp only
    generalize s.ops[k]? = op
    match op with
    | some (.update _ change (.holding rt)) => infer_instance
    | some (.notify _ _ (.writing rt _ _)) | some (.notify _ _ (.rollback rt _)) =>
      exact (inferInstance : Decidable (j ≠ k → ∀ other ∈ s.ops[j]?, takes s env rt other = false))
    | some (.update _ _ .called) | some (.update _ _ (.writing ..)) | some (.update _ _ .offline)
    | some (.update _ _ (.writingRow _)) | some (.update _ _ (.returned _)) => exact .isTrue trivial
    | some (.notify _ _ .called) | some (.notify _ _ (.holding _)) | some (.notify _ _ (.returned _)) =>
      exact .isTrue trivial
    | some (.start ..) | some (.delete ..) | some (.sweep _) | none => exact .isTrue trivial
  | .call _ | .runtime .. | .forget _ | .restart _ | .reconcile _ => exact .isTrue trivial

section Undo

variable {change : Option (ℕ × Bool)} {runtimes : List Runtime} {r r' : Runtime} {i : ℕ}

/-- A runtime as it is without a change of the setting. -/
def undoAt (change : Option (ℕ × Bool)) (i : ℕ) (r : Runtime) : Runtime :=
  match change with
  | some (rt, previous) => if rt = i then r.setNotificationsEnabled previous else r
  | none => r

theorem getElem?_undo (change : Option (ℕ × Bool)) (runtimes : List Runtime) (i : ℕ) :
    (undo change runtimes)[i]? = (runtimes[i]?).map (undoAt change i) := by
  rcases change with _ | ⟨rt, previous⟩
  · exact Option.map_id'.symm
  · show (runtimes.modify rt _)[i]? = _
    rw [List.getElem?_modify]
    rfl

theorem getElem?_undo_self (runtimes : List Runtime) (i : ℕ) (b : Bool) :
    (undo (some (i, b)) runtimes)[i]? = (runtimes[i]?).map fun r => r.setNotificationsEnabled b := by
  rw [getElem?_undo]
  exact Option.map_congr fun r _ => if_pos rfl

theorem getElem?_undo_ne (runtimes : List Runtime) {i j : ℕ} (h : i ≠ j) (b : Bool) :
    (undo (some (i, b)) runtimes)[j]? = runtimes[j]? := by
  rw [getElem?_undo]
  exact (Option.map_congr fun r _ => if_neg h).trans Option.map_id'

theorem undo_set (change : Option (ℕ × Bool)) (runtimes : List Runtime) (i : ℕ) (r : Runtime) :
    undo change (runtimes.set i r) = (undo change runtimes).set i (undoAt change i r) := by
  refine List.ext_getElem? fun j => ?_
  rw [getElem?_undo]
  by_cases hij : i = j
  · subst hij
    rw [List.getElem?_set_self', List.getElem?_set_self', getElem?_undo]
    cases runtimes[i]? <;> rfl
  · rw [List.getElem?_set_ne hij, List.getElem?_set_ne hij, getElem?_undo]

theorem undoAt_comm {f : Runtime → Runtime} (hf : ∀ r b, f (r.setNotificationsEnabled b) = (f r).setNotificationsEnabled b)
    (change : Option (ℕ × Bool)) (i : ℕ) (r : Runtime) : f (undoAt change i r) = undoAt change i (f r) := by
  rcases change with _ | ⟨rt, previous⟩
  · rfl
  · by_cases hi : rt = i
    · rw [undoAt, if_pos hi, undoAt, if_pos hi]
      exact hf r previous
    · rw [undoAt, if_neg hi, undoAt, if_neg hi]

theorem undoAt_of_ne (h : ∀ rt previous, change = some (rt, previous) → i ≠ rt) (r : Runtime) : undoAt change i r = r := by
  rcases change with _ | ⟨rt, previous⟩
  · rfl
  · exact if_neg (Ne.symm (h rt previous rfl))

theorem undoAt_persisted (change : Option (ℕ × Bool)) (i : ℕ) (r : Runtime) :
    (undoAt change i r).persisted = r.persisted := by
  rcases change with _ | ⟨rt, previous⟩
  · rfl
  · by_cases hi : rt = i
    · rw [undoAt, if_pos hi, Runtime.set_eq]
      split <;> rfl
    · rw [undoAt, if_neg hi]

theorem undoAt_flags (change : Option (ℕ × Bool)) (i : ℕ) (r : Runtime) :
    (undoAt change i r).outputClosed = r.outputClosed ∧ (undoAt change i r).resumeScanned = r.resumeScanned := by
  rcases change with _ | ⟨rt, previous⟩
  · exact ⟨rfl, rfl⟩
  · by_cases hi : rt = i
    · rw [undoAt, if_pos hi, Runtime.set_eq]
      split <;> exact ⟨rfl, rfl⟩
    · rw [undoAt, if_neg hi]
      exact ⟨rfl, rfl⟩

theorem undoAt_completed (change : Option (ℕ × Bool)) (i : ℕ) (r : Runtime) :
    (undoAt change i r).isCompleted = r.isCompleted := by
  rcases change with _ | ⟨rt, previous⟩
  · rfl
  · by_cases hi : rt = i
    · rw [undoAt, if_pos hi]
      exact Runtime.setNotificationsEnabled_completed previous
    · rw [undoAt, if_neg hi]

end Undo

/-! ### Steps that do not take the setting -/

section Over

variable {maxRunningSessions : ℕ} {s t : SessionStore Id} {env : Env Id} {id : Id} {op op' : Op Id}
  {change : Option (ℕ × Bool)} {ops : List (Op Id)}

theorem setRuntime_over (s : SessionStore Id) (change : Option (ℕ × Bool)) (ops : List (Op Id)) (rt : ℕ) (r : Runtime) :
    (s.setRuntime rt r).over change ops = (s.over change ops).setRuntime rt (undoAt change rt r) := by
  unfold SessionStore.over SessionStore.setRuntime
  simp only [undo_set]

theorem runtime_over (s : SessionStore Id) (change : Option (ℕ × Bool)) (ops : List (Op Id)) (rt : ℕ) :
    (s.over change ops).runtimes[rt]? = (s.runtimes[rt]?).map (undoAt change rt) :=
  getElem?_undo change s.runtimes rt

/-- A step on one runtime, on which the change does not show. -/
theorem map_over {rt : ℕ} {f g : Runtime → SessionStore Id × Op Id}
    (h : ∀ r, s.runtimes[rt]? = some r → g (undoAt change rt r) = ((f r).1.over change ops, (f r).2)) :
    ((s.over change ops).runtimes[rt]?).map g = ((s.runtimes[rt]?).map f).map fun p => (p.1.over change ops, p.2) := by
  rw [runtime_over]
  rcases hr : s.runtimes[rt]? with _ | r
  · rfl
  · exact congrArg some (h r hr)

theorem updateSession_over (ok : Bool) (m : SessionMeta) :
    (if ok then (s.over change ops).updateSession id m else s.over change ops) =
      (if ok then s.updateSession id m else s).over change ops := by
  cases ok <;> rfl

theorem updateStep_over {edit : MetadataUpdate} {phase : UpdatePhase}
    (htakes : ∀ rt previous, change = some (rt, previous) → takes s env rt (.update id edit phase) = false) :
    updateStep (s.over change ops) env id edit phase =
      (updateStep s env id edit phase).map fun p => (p.1.over change ops, p.2) := by
  cases phase with
  | called =>
    simp only [updateStep, show (s.over change ops).live = s.live from rfl]
    split
    · rfl
    · rcases s.live.get? id with _ | rt <;> rfl
  | holding rt =>
    refine map_over fun r hr => ?_
    have hne : ∀ rt' previous, change = some (rt', previous) → rt ≠ rt' := fun rt' previous hchange => by
      have := htakes rt' previous hchange
      exact beq_eq_false_iff_ne.mp this
    rw [undoAt_of_ne hne]
    split
    · rfl
    · rw [setRuntime_over, undoAt_of_ne hne]
  | writing rt m | writingRow m =>
    show some (_, _) = some (_, _)
    rw [updateSession_over]
  | offline =>
    simp only [updateStep, show (s.over change ops).rows = s.rows from rfl]
    rcases if env.ok = true then s.rows.get? id else none with _ | m
    · rfl
    · by_cases hsetting : edit.notificationsEnabled.isSome = true
      · simp only [if_pos hsetting]
        rfl
      · simp only [if_neg hsetting]
        rfl
  | returned ok => rfl

theorem notifyStep_over {enabled : Bool} {phase : NotifyPhase}
    (htakes : ∀ rt previous, change = some (rt, previous) → takes s env rt (.notify id enabled phase) = false) :
    notifyStep (s.over change ops) env id enabled phase =
      (notifyStep s env id enabled phase).map fun p => (p.1.over change ops, p.2) := by
  cases phase with
  | called =>
    simp only [notifyStep, show (s.over change ops).live = s.live from rfl]
    rcases s.live.get? id with _ | rt <;> rfl
  | holding rt =>
    refine map_over fun r hr => ?_
    have hne : ∀ rt' previous, change = some (rt', previous) → rt ≠ rt' := fun rt' previous hchange =>
      beq_eq_false_iff_ne.mp (htakes rt' previous hchange)
    rw [undoAt_of_ne hne]
    split
    · rfl
    · rw [setRuntime_over, undoAt_of_ne hne]
  | writing rt m previous =>
    simp only [notifyStep]
    cases env.ok <;> rfl
  | rollback rt previous =>
    refine map_over fun r hr => ?_
    have hne : ∀ rt' previous, change = some (rt', previous) → rt ≠ rt' := fun rt' previous hchange =>
      beq_eq_false_iff_ne.mp (htakes rt' previous hchange)
    rw [undoAt_of_ne hne, setRuntime_over, undoAt_of_ne hne]
  | returned ok => rfl

theorem sweepStep_over {phase : SweepPhase Id}
    (htakes : ∀ rt previous, change = some (rt, previous) → takes s env rt (.sweep phase) = false) :
    sweepStep (s.over change ops) env phase = (sweepStep s env phase).map fun p => (p.1.over change ops, p.2) := by
  cases phase with
  | called => rfl
  | collecting all todo toPersist =>
    rcases todo with _ | ⟨⟨id, rt⟩, todo⟩
    · rfl
    · refine map_over fun r hr => ?_
      have hcomm := undoAt_comm (f := fun r => (r.refreshStatus env.now env.child).1)
        (fun r b => congrArg Prod.fst (Runtime.refreshStatus_set r b env.now env.child)) change rt r
      simp only [hcomm, undoAt_completed, undoAt_persisted]
      by_cases htaken : (r.refreshStatus env.now env.child).1.isCompleted = true ∧
          (r.refreshStatus env.now env.child).1.persisted = false
      · have hne : ∀ rt' previous, change = some (rt', previous) → rt ≠ rt' := by
          rintro rt' previous hchange rfl
          have htrue : takes s env rt (.sweep (.collecting all ((id, rt) :: todo) toPersist)) = true := by
            simp [takes, hr, htaken]
          rw [htakes rt previous hchange] at htrue
          cases htrue
        rw [if_pos htaken, if_pos htaken, setRuntime_over, undoAt_of_ne hne, undoAt_of_ne hne]
      · rw [if_neg htaken, if_neg htaken, setRuntime_over]
  | persisting all toPersist =>
    rcases toPersist with _ | ⟨⟨id, m⟩, toPersist⟩
    · rfl
    · show some (_, _) = some (_, _)
      rw [updateSession_over]
  | evicting todo evicted =>
    rcases todo with _ | ⟨⟨id, rt⟩, todo⟩
    · rfl
    · refine map_over fun r hr => ?_
      rw [undoAt_completed, (undoAt_flags change rt r).1, (undoAt_flags change rt r).2]
      split <;> rfl
  | unlinking evicted | entombing evicted | returned => rfl

theorem opStep_over (hop : op.onMetadata = true)
    (htakes : ∀ rt previous, change = some (rt, previous) → takes s env rt op = false) :
    opStep maxRunningSessions (s.over change ops) env op =
      (opStep maxRunningSessions s env op).map fun p => (p.1.over change ops, p.2) := by
  cases op with
  | start phase n =>
    cases phase with
    | returned result => rfl
    | _ => cases hop
  | delete id force phase =>
    cases phase with
    | returned kill result => rfl
    | _ => cases hop
  | update id edit phase => exact updateStep_over htakes
  | notify id enabled phase => exact notifyStep_over htakes
  | sweep phase => exact sweepStep_over htakes

/-! ### The run -/

/-- What an operation on metadata does to the runtimes keeps both copies of the setting alike, and
it stays what it is. -/
theorem opStep_agrees (hop : op.onMetadata = true) (h : opStep maxRunningSessions s env op = some (t, op'))
    (hagrees : ∀ r ∈ s.runtimes, r.Agrees) :
    (∀ r ∈ t.runtimes, r.Agrees) ∧ op'.onMetadata = true ∧ op'.edits = op.edits := by
  have hset : ∀ {rt : ℕ} {r : Runtime}, r.Agrees → ∀ r' ∈ (s.setRuntime rt r).runtimes, r'.Agrees :=
    fun hr r' hmem => by
      rcases List.mem_or_eq_of_mem_set hmem with hold | rfl
      · exact hagrees r' hold
      · exact hr
  have hget : ∀ {rt : ℕ} {r : Runtime}, s.runtimes[rt]? = some r → r.Agrees := fun hr =>
    hagrees _ (List.mem_of_getElem? hr)
  cases op with
  | start phase n =>
    cases phase with
    | returned result => cases h
    | _ => cases hop
  | delete id force phase =>
    cases phase with
    | returned kill result => cases h
    | _ => cases hop
  | update id edit phase =>
    cases phase with
    | called =>
      simp only [opStep, updateStep] at h
      split at h
      · obtain ⟨rfl, rfl⟩ := Prod.mk.inj (Option.some.inj h)
        exact ⟨hagrees, rfl, rfl⟩
      · split at h
        all_goals obtain ⟨rfl, rfl⟩ := Prod.mk.inj (Option.some.inj h)
        all_goals exact ⟨hagrees, rfl, rfl⟩
    | holding rt =>
      obtain ⟨r, hr, heq⟩ := Option.map_eq_some_iff.mp h
      split at heq
      · obtain ⟨rfl, rfl⟩ := Prod.mk.inj heq
        exact ⟨hagrees, rfl, rfl⟩
      · obtain ⟨rfl, rfl⟩ := Prod.mk.inj heq
        exact ⟨hset (edit.adopt_agrees (hget hr)), rfl, rfl⟩
    | writing rt m | writingRow m =>
      obtain ⟨rfl, rfl⟩ := Prod.mk.inj (Option.some.inj h)
      refine ⟨?_, rfl, rfl⟩
      split <;> exact hagrees
    | offline =>
      simp only [opStep, updateStep] at h
      split at h
      · split at h
        all_goals obtain ⟨rfl, rfl⟩ := Prod.mk.inj (Option.some.inj h)
        all_goals exact ⟨hagrees, rfl, rfl⟩
      · obtain ⟨rfl, rfl⟩ := Prod.mk.inj (Option.some.inj h)
        exact ⟨hagrees, rfl, rfl⟩
    | returned ok => cases h
  | notify id enabled phase =>
    cases phase with
    | called =>
      simp only [opStep, notifyStep] at h
      split at h
      all_goals obtain ⟨rfl, rfl⟩ := Prod.mk.inj (Option.some.inj h)
      all_goals exact ⟨hagrees, rfl, rfl⟩
    | holding rt =>
      obtain ⟨r, hr, heq⟩ := Option.map_eq_some_iff.mp h
      split at heq
      · obtain ⟨rfl, rfl⟩ := Prod.mk.inj heq
        exact ⟨hagrees, rfl, rfl⟩
      · obtain ⟨rfl, rfl⟩ := Prod.mk.inj heq
        exact ⟨hset ((hget hr).set enabled), rfl, rfl⟩
    | writing rt m previous =>
      simp only [opStep, notifyStep] at h
      split at h
      all_goals obtain ⟨rfl, rfl⟩ := Prod.mk.inj (Option.some.inj h)
      all_goals exact ⟨hagrees, rfl, rfl⟩
    | rollback rt previous =>
      obtain ⟨r, hr, heq⟩ := Option.map_eq_some_iff.mp h
      obtain ⟨rfl, rfl⟩ := Prod.mk.inj heq
      exact ⟨hset ((hget hr).set previous), rfl, rfl⟩
    | returned ok => cases h
  | sweep phase =>
    cases phase with
    | called | unlinking evicted | entombing evicted =>
      obtain ⟨rfl, rfl⟩ := Prod.mk.inj (Option.some.inj h)
      exact ⟨hagrees, rfl, rfl⟩
    | collecting all todo toPersist =>
      rcases todo with _ | ⟨⟨id, rt⟩, todo⟩
      · obtain ⟨rfl, rfl⟩ := Prod.mk.inj (Option.some.inj h)
        exact ⟨hagrees, rfl, rfl⟩
      · obtain ⟨r, hr, heq⟩ := Option.map_eq_some_iff.mp h
        have hrefreshed := (hget hr).refreshStatus env.now env.child
        simp only [] at heq
        split at heq
        · obtain ⟨rfl, rfl⟩ := Prod.mk.inj heq
          exact ⟨hset (r := { (r.refreshStatus env.now env.child).1 with persisted := true }) hrefreshed, rfl, rfl⟩
        · obtain ⟨rfl, rfl⟩ := Prod.mk.inj heq
          exact ⟨hset hrefreshed, rfl, rfl⟩
    | persisting all toPersist =>
      rcases toPersist with _ | ⟨⟨id, m⟩, toPersist⟩
      · obtain ⟨rfl, rfl⟩ := Prod.mk.inj (Option.some.inj h)
        exact ⟨hagrees, rfl, rfl⟩
      · obtain ⟨rfl, rfl⟩ := Prod.mk.inj (Option.some.inj h)
        refine ⟨?_, rfl, rfl⟩
        split <;> exact hagrees
    | evicting todo evicted =>
      rcases todo with _ | ⟨⟨id, rt⟩, todo⟩
      · obtain ⟨rfl, rfl⟩ := Prod.mk.inj (Option.some.inj h)
        exact ⟨hagrees, rfl, rfl⟩
      · obtain ⟨r, hr, heq⟩ := Option.map_eq_some_iff.mp h
        split at heq
        all_goals obtain ⟨rfl, rfl⟩ := Prod.mk.inj heq
        all_goals exact ⟨hagrees, rfl, rfl⟩
    | returned => cases h

/-- Nothing is in flight but operations on metadata, and both copies of a setting are alike. -/
structure Served (s : SessionStore Id) : Prop where
  metadata : ∀ op ∈ s.ops, op.onMetadata = true
  agrees : ∀ r ∈ s.runtimes, r.Agrees

/-- And `k` is an edit. -/
structure Editing (k : ℕ) (s : SessionStore Id) : Prop extends Served s where
  edits : ∃ op, s.ops[k]? = some op ∧ op.edits = true

variable {k : ℕ}

omit [LinearOrder Id] in
theorem Request.onMetadata {request : Request Id} (h : (Action.call request).onMetadata = true) :
    request.op.onMetadata = true := by
  cases request with
  | start spec => cases h
  | delete id force => cases h
  | update | notify | sweep => rfl

theorem served_step {action : Action Id} (h : Served s) (haction : action.onMetadata = true)
    (hstep : s.step maxRunningSessions action = some t) : Served t := by
  cases action with
  | call request =>
    rw [step_call hstep]
    refine ⟨fun op hmem => ?_, h.agrees⟩
    rcases List.mem_append.mp hmem with hold | hnew
    · exact h.metadata op hold
    · rw [List.mem_singleton.mp hnew]
      exact Request.onMetadata haction
  | advance j env =>
    obtain ⟨op, t', op', hj, hop, rfl⟩ := step_advance hstep
    obtain ⟨hagrees, hmetadata, -⟩ := opStep_agrees (h.metadata op (List.mem_of_getElem? hj)) hop h.agrees
    refine ⟨fun a hmem => ?_, hagrees⟩
    rcases List.mem_or_eq_of_mem_set hmem with hold | rfl
    · exact h.metadata a hold
    · exact hmetadata
  | runtime rt event =>
    obtain ⟨r, hr, rfl⟩ := step_runtime hstep
    refine ⟨h.metadata, fun r' hmem => ?_⟩
    rcases List.mem_or_eq_of_mem_set hmem with hold | rfl
    · exact h.agrees r' hold
    · exact (h.agrees r (List.mem_of_getElem? hr)).apply event
  | forget id =>
    rw [step_forget hstep]
    exact ⟨h.metadata, h.agrees⟩
  | restart ok => cases haction
  | reconcile ok => cases haction

theorem editing_step {action : Action Id} (h : Editing k s) (haction : action.onMetadata = true)
    (hstep : s.step maxRunningSessions action = some t) : Editing k t := by
  refine ⟨served_step h.toServed haction hstep, ?_⟩
  obtain ⟨opk, hk, hedits⟩ := h.edits
  have hlt := (List.getElem?_eq_some_iff.mp hk).1
  cases action with
  | call request =>
    rw [step_call hstep]
    exact ⟨opk, (List.getElem?_append_left hlt).trans hk, hedits⟩
  | advance j env =>
    obtain ⟨op, t', op', hj, hop, rfl⟩ := step_advance hstep
    obtain ⟨-, -, hsame⟩ := opStep_agrees (h.metadata op (List.mem_of_getElem? hj)) hop h.agrees
    by_cases hjk : j = k
    · subst hjk
      rw [hj] at hk
      obtain rfl : op = opk := Option.some.inj hk
      exact ⟨op', List.getElem?_set_self hlt, hsame.trans hedits⟩
    · exact ⟨opk, (List.getElem?_set_ne hjk).trans hk, hedits⟩
  | runtime rt event =>
    obtain ⟨r, hr, rfl⟩ := step_runtime hstep
    exact ⟨opk, hk, hedits⟩
  | forget id =>
    rw [step_forget hstep]
    exact ⟨opk, hk, hedits⟩
  | restart ok => cases haction
  | reconcile ok => cases haction

/-- The store is serving. -/
theorem serving {action : Action Id} (haction : action.onMetadata = true)
    (hstep : s.step maxRunningSessions action = some t) : s.booting.isSome = false := by
  have hguard : ∀ {x : Option (SessionStore Id)}, (if s.booting.isSome then none else x) = some t →
      s.booting.isSome = false := fun h => by
    split at h
    · cases h
    · next hnot => exact eq_false_of_ne_true hnot
  cases action with
  | call | advance | runtime | forget => exact hguard hstep
  | restart | reconcile => cases haction

theorem opStep_succeeded (hdone : op.succeeded = true) : opStep maxRunningSessions s env op = none := by
  unfold Op.succeeded at hdone
  split at hdone
  · rfl
  · rfl
  · cases hdone

/-- An operation that has succeeded stays so. -/
theorem succeeded_stays {action : Action Id} (haction : action.onMetadata = true)
    (hstep : s.step maxRunningSessions action = some t) (hk : s.ops[k]? = some op) (hdone : op.succeeded = true) :
    t.ops[k]? = some op := by
  cases action with
  | call request =>
    rw [step_call hstep]
    exact (List.getElem?_append_left (List.getElem?_eq_some_iff.mp hk).1).trans hk
  | advance j env =>
    obtain ⟨op', t', op'', hj, hop, rfl⟩ := step_advance hstep
    have hjk : j ≠ k := by
      rintro rfl
      rw [hk] at hj
      obtain rfl : op = op' := Option.some.inj hj
      rw [opStep_succeeded hdone] at hop
      cases hop
    exact (List.getElem?_set_ne hjk).trans hk
  | runtime rt event =>
    obtain ⟨r, hr, rfl⟩ := step_runtime hstep
    exact hk
  | forget id =>
    rw [step_forget hstep]
    exact hk
  | restart | reconcile => cases haction

theorem set_self {l : List Runtime} {i : ℕ} {r : Runtime} (h : l[i]? = some r) : l.set i r = l := by
  obtain ⟨hlt, rfl⟩ := List.getElem?_eq_some_iff.mp h
  exact List.set_getElem_self hlt

/-- The steps of an edit that fails do not show where it is left out. -/
theorem edit_over (hedits : op.edits = true) (hstep : opStep maxRunningSessions s env op = some (t, op'))
    (hfails : op'.succeeded = false) (hagrees : ∀ r ∈ s.runtimes, r.Agrees)
    (hharmless : ∀ id edit rt, op = .update id edit (.holding rt) → ∀ r ∈ s.runtimes[rt]?,
      (edit.notificationsEnabled.isSome = true ∧ r.isCompleted = true) ∨ edit.adopt r = r) :
    t.over op'.rollsBack ops = s.over op.rollsBack ops := by
  cases op with
  | start | delete | sweep => cases hedits
  | update id edit phase =>
    cases phase with
    | called =>
      simp only [opStep, updateStep] at hstep
      split at hstep
      · obtain ⟨rfl, rfl⟩ := Prod.mk.inj (Option.some.inj hstep)
        rfl
      · split at hstep
        all_goals obtain ⟨rfl, rfl⟩ := Prod.mk.inj (Option.some.inj hstep)
        all_goals rfl
    | holding rt =>
      obtain ⟨r, hr, heq⟩ := Option.map_eq_some_iff.mp hstep
      split at heq
      · obtain ⟨rfl, rfl⟩ := Prod.mk.inj heq
        rfl
      · next hnot =>
        obtain ⟨rfl, rfl⟩ := Prod.mk.inj heq
        have hsame : edit.adopt r = r := (hharmless id edit rt rfl r hr).resolve_left hnot
        rw [hsame]
        show SessionStore.over { s with runtimes := s.runtimes.set rt r } none ops = _
        rw [set_self hr]
        rfl
    | writing rt m | writingRow m =>
      obtain ⟨rfl, rfl⟩ := Prod.mk.inj (Option.some.inj hstep)
      have hok : env.ok = false := by
        cases hok : env.ok with
        | false => rfl
        | true =>
          rw [hok] at hfails
          cases hfails
      rw [hok]
      rfl
    | offline =>
      simp only [opStep, updateStep] at hstep
      split at hstep
      · split at hstep
        all_goals obtain ⟨rfl, rfl⟩ := Prod.mk.inj (Option.some.inj hstep)
        all_goals rfl
      · obtain ⟨rfl, rfl⟩ := Prod.mk.inj (Option.some.inj hstep)
        rfl
    | returned ok => cases hstep
  | notify id enabled phase =>
    cases phase with
    | called =>
      simp only [opStep, notifyStep] at hstep
      split at hstep
      all_goals obtain ⟨rfl, rfl⟩ := Prod.mk.inj (Option.some.inj hstep)
      all_goals rfl
    | holding rt =>
      obtain ⟨r, hr, heq⟩ := Option.map_eq_some_iff.mp hstep
      split at heq
      · obtain ⟨rfl, rfl⟩ := Prod.mk.inj heq
        rfl
      · obtain ⟨rfl, rfl⟩ := Prod.mk.inj heq
        have hback : undo (some (rt, r.notificationsEnabled)) (s.runtimes.set rt (r.setNotificationsEnabled enabled)) =
            s.runtimes := by
          refine List.ext_getElem? fun j => ?_
          by_cases hj : rt = j
          · subst hj
            rw [getElem?_undo_self, List.getElem?_set_self (List.getElem?_eq_some_iff.mp hr).1, hr, Option.map_some,
              (hagrees r (List.mem_of_getElem? hr)).set_back]
          · rw [getElem?_undo_ne _ hj, List.getElem?_set_ne hj]
        show SessionStore.over { s with runtimes := s.runtimes.set rt _ } (some (rt, r.notificationsEnabled)) ops = s.over none ops
        unfold SessionStore.over
        simp only [hback]
        rfl
    | writing rt m previous =>
      simp only [opStep, notifyStep] at hstep
      split at hstep
      · obtain ⟨rfl, rfl⟩ := Prod.mk.inj (Option.some.inj hstep)
        cases hfails
      · obtain ⟨rfl, rfl⟩ := Prod.mk.inj (Option.some.inj hstep)
        rfl
    | rollback rt previous =>
      obtain ⟨r, hr, heq⟩ := Option.map_eq_some_iff.mp hstep
      obtain ⟨rfl, rfl⟩ := Prod.mk.inj heq
      have hback : s.runtimes.set rt (r.setNotificationsEnabled previous) = undo (some (rt, previous)) s.runtimes := by
        refine List.ext_getElem? fun j => ?_
        by_cases hj : rt = j
        · subst hj
          rw [getElem?_undo_self, List.getElem?_set_self (List.getElem?_eq_some_iff.mp hr).1, hr, Option.map_some]
        · rw [getElem?_undo_ne _ hj, List.getElem?_set_ne hj]
      show SessionStore.over { s with runtimes := s.runtimes.set rt _ } none ops = s.over (some (rt, previous)) ops
      unfold SessionStore.over
      simp only [hback]
      rfl
    | returned ok => cases hstep

/-- A step of another operation, or of none, is the same where `k` is left out. -/
theorem leaveOut_step (op₀ : Op Id) {action : Action Id} (h : Editing k s)
    (hC : action.onMetadata = true ∧ Harmless k s action) (hstep : s.step maxRunningSessions action = some t)
    (hother : action.advances k = false) :
    (leaveOut k op₀ s).step maxRunningSessions action = some (leaveOut k op₀ t) := by
  obtain ⟨haction, hharmless⟩ := hC
  have hbooting := serving haction hstep
  obtain ⟨opk, hk, hedits⟩ := h.edits
  have hlt := (List.getElem?_eq_some_iff.mp hk).1
  have hguard : ∀ {x : Option (SessionStore Id)}, (if (leaveOut k op₀ s).booting.isSome then none else x) = x := fun {x} => by
    rw [show (leaveOut k op₀ s).booting = s.booting from rfl, hbooting]
    rfl
  cases action with
  | call request =>
    rw [step_call hstep]
    refine hguard.trans (congrArg some ?_)
    unfold leaveOut
    simp only [List.getElem?_append_left hlt, List.set_append_left _ _ hlt]
    rfl
  | advance j env =>
    obtain ⟨op, t', op', hj, hop, rfl⟩ := step_advance hstep
    have hjk : j ≠ k := fun hjk => by
      rw [hjk] at hother
      exact absurd hother (by simp [Action.advances])
    have htakes : ∀ rt previous, (s.ops[k]?).bind Op.rollsBack = some (rt, previous) → takes s env rt op = false := by
      intro rt previous hrolls
      rw [hk] at hrolls
      have hrolls : opk.rollsBack = some (rt, previous) := hrolls
      cases opk with
      | notify id enabled phase =>
        simp only [Harmless, hk, hrolls] at hharmless
        exact hharmless hjk op hj
      | _ => cases hrolls
    refine hguard.trans ?_
    rw [show (leaveOut k op₀ s).ops[j]? = some op from (List.getElem?_set_ne (Ne.symm hjk)).trans hj]
    show (opStep maxRunningSessions (leaveOut k op₀ s) env op).bind _ = _
    unfold leaveOut
    rw [opStep_over (h.metadata op (List.mem_of_getElem? hj)) htakes, hop]
    refine congrArg some ?_
    simp only [List.getElem?_set_ne hjk, List.set_comm _ _ hjk]
    rfl
  | runtime rt event =>
    obtain ⟨r, hr, rfl⟩ := step_runtime hstep
    refine hguard.trans ?_
    unfold leaveOut
    rw [runtime_over, hr]
    refine congrArg some ?_
    show (s.over _ _).setRuntime rt ((undoAt _ rt r).apply event) = (s.setRuntime rt (r.apply event)).over _ _
    rw [setRuntime_over, undoAt_comm (f := fun r => r.apply event) fun r b => Runtime.apply_set r b event]
    rfl
  | forget id =>
    rw [step_forget hstep]
    exact hguard
  | restart | reconcile => cases haction

/-- A step of `k`, which does not succeed, does not show where it is left out. -/
theorem leaveOut_skip {op₀ : Op Id} {action : Action Id} (h : Editing k s)
    (hfails : ∀ op, t.ops[k]? = some op → op.succeeded = false)
    (hC : action.onMetadata = true ∧ Harmless k s action) (hstep : s.step maxRunningSessions action = some t)
    (hself : action.advances k = true) : leaveOut k op₀ t = leaveOut k op₀ s := by
  cases action with
  | advance j env =>
    obtain rfl : j = k := beq_iff_eq.mp hself
    obtain ⟨op, t', op', hj, hop, rfl⟩ := step_advance hstep
    obtain ⟨opk, hk, hedits⟩ := h.edits
    obtain rfl : opk = op := Option.some.inj (hk.symm.trans hj)
    have hlt := (List.getElem?_eq_some_iff.mp hj).1
    have hnew : (s.ops.set j op')[j]? = some op' := List.getElem?_set_self hlt
    have hover : t'.over op'.rollsBack (s.ops.set j op₀) = s.over opk.rollsBack (s.ops.set j op₀) :=
      edit_over hedits hop (hfails op' hnew) h.agrees (fun id edit rt heq r hr => by
        subst heq
        have hharmless := hC.2
        simp only [Harmless, hj] at hharmless
        exact hharmless trivial r hr)
    unfold leaveOut
    simp only [hj, hnew, List.set_set]
    exact hover
  | call | runtime | forget | restart | reconcile => cases hself

theorem succeeded_back {action : Action Id} (hC : action.onMetadata = true ∧ Harmless k s action)
    (hstep : s.step maxRunningSessions action = some t) (hfails : ∀ op, t.ops[k]? = some op → op.succeeded = false)
    (op : Op Id) (hk : s.ops[k]? = some op) : op.succeeded = false := by
  by_contra hne
  have hstays := succeeded_stays hC.1 hstep hk (eq_true_of_ne_false hne)
  exact hne (hfails op hstays)

/-- A failing edit that is harmless leaves the runtimes as they are without it. -/
theorem leftout_run {op₀ : Op Id} {as : List (Action Id)} (h : Editing k s) (hcalled : s.ops[k]? = some op₀)
    (hidle : op₀.rollsBack = none) (hrun : Runs.run (SessionStore.step maxRunningSessions) s as = some t)
    (hactions : ∀ action ∈ as, action.onMetadata = true)
    (hharmless : Runs.Meets (SessionStore.step maxRunningSessions) (Harmless k) s as)
    (hreturned : t.ops[k]? = some op) (hfails : op.succeeded = false) (hdone : op.idle = true) :
    ∃ t', Runs.run (SessionStore.step maxRunningSessions) s (as.filter fun a => !a.advances k) = some t' ∧
      t'.runtimes = t.runtimes := by
  have hstart : leaveOut k op₀ s = s := by
    unfold leaveOut SessionStore.over
    have hlt := (List.getElem?_eq_some_iff.mp hcalled).1
    have hops : s.ops.set k op₀ = s.ops := by
      obtain ⟨_, rfl⟩ := List.getElem?_eq_some_iff.mp hcalled
      exact List.set_getElem_self hlt
    rw [hcalled, show (some op₀).bind Op.rollsBack = none from hidle, hops]
    rfl
  have hend : (leaveOut k op₀ t).runtimes = t.runtimes := by
    have hrolls : op.rollsBack = none := by
      cases op with
      | notify id enabled phase =>
        cases phase with
        | writing | rollback => cases hdone
        | _ => rfl
      | _ => rfl
    show undo ((t.ops[k]?).bind Op.rollsBack) t.runtimes = t.runtimes
    rw [hreturned, show (some op).bind Op.rollsBack = none from hrolls]
    rfl
  have hmeets := (Runs.meets_of_forall (C := fun (_ : SessionStore Id) (action : Action Id) => action.onMetadata = true)
    fun action hmem _ => hactions action hmem).and hharmless
  have hrun' := Runs.run_erase (fun h hC hstep => editing_step h hC.1 hstep) succeeded_back leaveOut_skip
    (leaveOut_step op₀) hrun hmeets h fun op' hop' => by
      rw [hreturned] at hop'
      cases hop'
      exact hfails
  rw [hstart] at hrun'
  exact ⟨_, hrun'.1, hend⟩

end Over

end Store
end OpenRelay
