/-
# The row agrees with the runtime

An update of metadata, a change of the notification setting and the sweep that persists a
completion each take a snapshot of the runtime's metadata under its lock, and write the
whole row later. In every run of them on one session in which no snapshot is written, once
the completion has been handed to a writer, that is older than the runtime, and in which an
edit that fails is harmless: after the completion is written and nothing is in flight, the
row is the runtime's metadata; and an edit that has failed leaves the runtimes as they are
without it (`row_agrees`). An older snapshot turns an ended session's row back
(`written_back`).

Key theorem: `recorded_step`.
-/
import OpenRelay.Store.Presence
import OpenRelay.Store.Leftout

namespace OpenRelay
namespace Store

open Session (SessionStatus ExitCode TryWait)

variable {Id : Type*} [LinearOrder Id]

/-! ### The session -/

/-- The runtime's metadata. -/
def SessionStore.metadata (s : SessionStore Id) (rt : ℕ) : Option SessionMeta := (s.runtimes[rt]?).map fun r => r.metadata

/-- The session has ended, and its completion has been handed to a writer. -/
def SessionStore.handed (s : SessionStore Id) (rt : ℕ) : Bool :=
  (s.runtimes[rt]?).any fun r => r.isCompleted && r.persisted

def SessionStore.Agreed (s : SessionStore Id) (id : Id) (rt : ℕ) : Prop := s.rows.get? id = s.metadata rt

instance (s : SessionStore Id) (id : Id) (rt : ℕ) : Decidable (s.Agreed id rt) :=
  inferInstanceAs (Decidable (s.rows.get? id = s.metadata rt))

/-- A live session as its start has left it, with nothing in flight. -/
structure Published (s : SessionStore Id) (id : Id) (rt : ℕ) : Prop where
  live : s.live.get? id = some rt
  own : ∀ id', s.live.get? id' = some rt → id' = id
  row : s.hasRow id = true
  idle : ∀ op ∈ s.ops, op.idle = true
  agrees : ∀ r ∈ s.runtimes, r.Agrees

/-- Once its completion has been handed to a writer, nothing writes the session's row from a
snapshot older than the runtime, what fails leaves the row as the runtime, and the terminal's
title is not taken any more. -/
def Current (id : Id) (rt : ℕ) (s : SessionStore Id) : Action Id → Prop
  | .advance k env =>
    match s.ops[k]? with
    | some (.update id' _ (.writing _ m)) =>
      id' = id → s.handed rt = true → if env.ok then s.metadata rt = some m else s.Agreed id rt
    | some (.notify id' _ (.writing _ m _)) => id' = id → s.handed rt = true → env.ok = true → s.metadata rt = some m
    | some (.notify id' _ (.rollback _ previous)) =>
      id' = id → s.handed rt = true →
        s.rows.get? id = (s.runtimes[rt]?).map fun r => (r.setNotificationsEnabled previous).metadata
    | some (.sweep (.persisting _ ((id', m) :: _))) => id' = id → s.handed rt = true → env.ok = true → s.metadata rt = some m
    | _ => True
  | .runtime rt' (.terminalTitle title) =>
    rt' = rt → s.handed rt = true → ∀ r ∈ s.runtimes[rt]?, (r.applyTerminalTitle title).metadata = r.metadata
  | _ => True

instance (id : Id) (rt : ℕ) (s : SessionStore Id) (action : Action Id) : Decidable (Current id rt s action) := by
  delta Current
  match action with
  | .advance k env =>
    dsimp only
    generalize s.ops[k]? = op
    match op with
    | some (.update _ _ (.writing ..)) | some (.notify _ _ (.writing ..)) => infer_instance
    | some (.notify _ _ (.rollback ..)) | some (.sweep (.persisting _ (_ :: _))) => infer_instance
    | some (.update _ _ .called) | some (.update _ _ (.holding _)) | some (.update _ _ .offline)
    | some (.update _ _ (.writingRow _)) | some (.update _ _ (.returned _)) => exact .isTrue trivial
    | some (.notify _ _ .called) | some (.notify _ _ (.holding _)) | some (.notify _ _ (.returned _)) =>
      exact .isTrue trivial
    | some (.sweep .called) | some (.sweep (.collecting ..)) | some (.sweep (.persisting _ []))
    | some (.sweep (.evicting ..)) | some (.sweep (.unlinking _)) | some (.sweep (.entombing _))
    | some (.sweep .returned) => exact .isTrue trivial
    | some (.start ..) | some (.delete ..) | none => exact .isTrue trivial
  | .runtime _ (.terminalTitle _) => infer_instance
  | .runtime _ (.refresh ..) | .runtime _ (.stop ..) | .runtime _ (.force ..) | .runtime _ .closeOutput
  | .runtime _ .scanned => exact .isTrue trivial
  | .call _ | .forget _ | .restart _ | .reconcile _ => exact .isTrue trivial

/-! ### What the operations in flight know -/

/-- An operation that will still write the session's row, or roll its runtime back. -/
def Op.pends (id : Id) (rt : ℕ) : Op Id → Bool
  | .update id' _ (.writing rt' _) | .notify id' _ (.writing rt' _ _) | .notify id' _ (.rollback rt' _) =>
    id' == id && rt' == rt
  | _ => false

/-- The operation takes the session's runtime for the session's, and a completion it is to write
has been handed to it. -/
def Op.Tracks (id : Id) (rt : ℕ) (s : SessionStore Id) : Op Id → Prop
  | .update id' _ (.holding rt') | .update id' _ (.writing rt' _) | .notify id' _ (.holding rt')
  | .notify id' _ (.writing rt' _ _) | .notify id' _ (.rollback rt' _) => id' = id ↔ rt' = rt
  | .update id' _ .offline | .update id' _ (.writingRow _) => id' ≠ id
  | .sweep (.collecting _ todo toPersist) =>
    (∀ e ∈ todo, e.1 = id → e.2 = rt) ∧ ∀ e ∈ toPersist, e.1 = id → s.handed rt = true
  | .sweep (.persisting _ toPersist) => ∀ e ∈ toPersist, e.1 = id → s.handed rt = true
  | _ => True

/-- What holds of a session as long as it is live. -/
structure Tracked (id : Id) (rt : ℕ) (s : SessionStore Id) : Prop where
  row : s.hasRow id = true
  own : ∀ id', s.live.get? id' = some rt → id' = id
  ops : ∀ op ∈ s.ops, op.Tracks id rt s

/-- The completion is recorded: the row is the runtime's metadata, or someone is about to see to it. -/
def Recorded (id : Id) (rt : ℕ) (s : SessionStore Id) : Prop :=
  s.handed rt = true ∧ (s.Agreed id rt ∨ ∃ op ∈ s.ops, op.pends id rt = true)

section Invariant

variable {maxRunningSessions : ℕ} {s t : SessionStore Id} {env : Env Id} {id id' : Id} {rt k : ℕ} {op op' : Op Id}

theorem Op.Tracks.mono (h : op.Tracks id rt s) (hhanded : s.handed rt = true → t.handed rt = true) :
    op.Tracks id rt t := by
  cases op with
  | sweep phase =>
    cases phase with
    | collecting all todo toPersist => exact ⟨h.1, fun e he hid => hhanded (h.2 e he hid)⟩
    | persisting all toPersist => exact fun e he hid => hhanded (h e he hid)
    | _ => trivial
  | start | delete => trivial
  | update id' change phase => cases phase <;> exact h
  | notify id' enabled phase => cases phase <;> exact h

/-- What a step of an operation comes to for the session: `op` becomes `op'`. -/
structure Follows (id : Id) (rt : ℕ) (s t : SessionStore Id) (op op' : Op Id) : Prop where
  handed : s.handed rt = true → t.handed rt = true
  tracks : op'.Tracks id rt t
  agreed : s.handed rt = true → s.Agreed id rt ∨ op.pends id rt = true → t.Agreed id rt ∨ op'.pends id rt = true

theorem Follows.same (htracks : op'.Tracks id rt s) (hpends : op.pends id rt = true → op'.pends id rt = true) :
    Follows id rt s s op op' :=
  ⟨fun h => h, htracks, fun _ h => h.imp_right hpends⟩

theorem handed_setRuntime {i : ℕ} {r r' : Runtime} (hr : s.runtimes[i]? = some r)
    (hcompleted : r.isCompleted = true → r'.isCompleted = true) (hpersisted : r.persisted = true → r'.persisted = true)
    (h : s.handed rt = true) : (s.setRuntime i r').handed rt = true := by
  unfold SessionStore.handed SessionStore.setRuntime at *
  by_cases hi : i = rt
  · subst hi
    rw [List.getElem?_set_self (List.getElem?_eq_some_iff.mp hr).1]
    rw [hr, Option.any_some, Bool.and_eq_true] at h
    rw [Option.any_some, hcompleted h.1, hpersisted h.2]
    rfl
  · rwa [List.getElem?_set_ne hi]

theorem metadata_setRuntime_ne {i : ℕ} (r : Runtime) (h : i ≠ rt) : (s.setRuntime i r).metadata rt = s.metadata rt := by
  unfold SessionStore.metadata SessionStore.setRuntime
  rw [List.getElem?_set_ne h]

theorem metadata_setRuntime_self {r r' : Runtime} (hr : s.runtimes[rt]? = some r) :
    (s.setRuntime rt r').metadata rt = some r'.metadata := by
  unfold SessionStore.metadata SessionStore.setRuntime
  rw [List.getElem?_set_self (List.getElem?_eq_some_iff.mp hr).1]
  rfl

theorem handed_some {r : Runtime} (hr : s.runtimes[rt]? = some r) (h : s.handed rt = true) :
    r.isCompleted = true ∧ r.persisted = true := by
  unfold SessionStore.handed at h
  rwa [hr, Option.any_some, Bool.and_eq_true] at h

theorem get?_updateSession (s : SessionStore Id) (id id' : Id) (m : SessionMeta) (hrow : s.hasRow id = true) :
    (s.updateSession id' m).rows.get? id = if id = id' then some m else s.rows.get? id := by
  show (s.rows.adjust id' fun _ => m).get? id = _
  rw [SortedMap.get?_adjust]
  by_cases hid : id = id'
  · rw [if_pos hid, if_pos hid]
    obtain ⟨m', hm'⟩ := Option.isSome_iff_exists.mp hrow
    rw [hm']
    rfl
  · rw [if_neg hid, if_neg hid]

/-- A row is written, or the write fails. -/
theorem agreed_write (hrow : s.hasRow id = true) (ok : Bool) {m : SessionMeta}
    (hsame : id' = id → if ok then s.metadata rt = some m else s.Agreed id rt) (hother : id' ≠ id → s.Agreed id rt) :
    (if ok then s.updateSession id' m else s).Agreed id rt := by
  by_cases hid : id' = id
  · have hsame := hsame hid
    subst hid
    cases ok with
    | true =>
      show (s.updateSession id' m).rows.get? id' = s.metadata rt
      rw [get?_updateSession s id' id' m hrow, if_pos rfl]
      exact hsame.symm
    | false => exact hsame
  · have hother := hother hid
    cases ok with
    | true =>
      show (s.updateSession id' m).rows.get? id = s.metadata rt
      rw [get?_updateSession s id id' m hrow, if_neg (Ne.symm hid)]
      exact hother
    | false => exact hother

theorem follows_update {change : MetadataUpdate} {phase : UpdatePhase} (hT : Tracked id rt s)
    (hlive : s.live.get? id = some rt) (htracks : (Op.update id' change phase).Tracks id rt s)
    (hk : s.ops[k]? = some (.update id' change phase)) (hcurrent : Current id rt s (.advance k env))
    (hstep : updateStep s env id' change phase = some (t, op')) : Follows id rt s t (.update id' change phase) op' := by
  simp only [Current, hk] at hcurrent
  cases phase with
  | called =>
    simp only [updateStep] at hstep
    split at hstep
    · obtain ⟨rfl, rfl⟩ := Prod.mk.inj (Option.some.inj hstep)
      exact .same trivial fun h => by cases h
    · split at hstep
      · next rt' hget =>
        obtain ⟨rfl, rfl⟩ := Prod.mk.inj (Option.some.inj hstep)
        refine .same ⟨?_, ?_⟩ fun h => by cases h
        · rintro rfl
          exact Option.some.inj (hget.symm.trans hlive)
        · rintro rfl
          exact hT.own id' hget
      · next hnone =>
        obtain ⟨rfl, rfl⟩ := Prod.mk.inj (Option.some.inj hstep)
        refine .same ?_ fun h => by cases h
        rintro rfl
        rw [hnone] at hlive
        cases hlive
  | holding rt' =>
    obtain ⟨r, hr, heq⟩ := Option.map_eq_some_iff.mp hstep
    split at heq
    · obtain ⟨rfl, rfl⟩ := Prod.mk.inj heq
      exact .same trivial fun h => by cases h
    · obtain ⟨rfl, rfl⟩ := Prod.mk.inj heq
      have hpersisted : (change.adopt r).persisted = r.persisted := by
        unfold MetadataUpdate.adopt
        split
        · rw [Runtime.set_eq]
          split <;> rfl
        · rfl
      refine ⟨handed_setRuntime hr (fun h => (change.adopt_completed r).trans h) (fun h => hpersisted.trans h),
        htracks, fun _ hagreed => ?_⟩
      by_cases hid : id' = id
      · refine .inr ?_
        show (id' == id && rt' == rt) = true
        rw [beq_iff_eq.mpr hid, beq_iff_eq.mpr (htracks.mp hid)]
        rfl
      · refine .inl ?_
        have hrt : rt' ≠ rt := fun h => hid (htracks.mpr h)
        have hold : s.Agreed id rt := hagreed.resolve_right fun h => by cases h
        exact hold.trans (metadata_setRuntime_ne _ hrt).symm
  | writing rt' m =>
    obtain ⟨rfl, rfl⟩ := Prod.mk.inj (Option.some.inj hstep)
    have hhanded : ∀ ok : Bool, (if ok then s.updateSession id' m else s).handed rt = s.handed rt := fun ok => by
      cases ok <;> rfl
    refine ⟨fun h => (hhanded _).trans h, trivial, fun h hagreed => .inl (agreed_write hT.row _ (fun hid => hcurrent hid h) ?_)⟩
    intro hid
    refine hagreed.resolve_right fun h => ?_
    exact hid (beq_iff_eq.mp (Bool.and_eq_true_iff.mp h).1)
  | offline =>
    simp only [updateStep] at hstep
    split at hstep
    · split at hstep
      · obtain ⟨rfl, rfl⟩ := Prod.mk.inj (Option.some.inj hstep)
        exact .same trivial fun h => by cases h
      · obtain ⟨rfl, rfl⟩ := Prod.mk.inj (Option.some.inj hstep)
        exact .same htracks fun h => by cases h
    · obtain ⟨rfl, rfl⟩ := Prod.mk.inj (Option.some.inj hstep)
      exact .same trivial fun h => by cases h
  | writingRow m =>
    obtain ⟨rfl, rfl⟩ := Prod.mk.inj (Option.some.inj hstep)
    have hhanded : ∀ ok : Bool, (if ok then s.updateSession id' m else s).handed rt = s.handed rt := fun ok => by
      cases ok <;> rfl
    refine ⟨fun h => (hhanded _).trans h, trivial, fun h hagreed => .inl (agreed_write hT.row _ (fun hid => absurd hid htracks) ?_)⟩
    exact fun _ => hagreed.resolve_right fun h => by cases h
  | returned ok => cases hstep

theorem follows_notify {enabled : Bool} {phase : NotifyPhase} (hT : Tracked id rt s)
    (hlive : s.live.get? id = some rt) (htracks : (Op.notify id' enabled phase).Tracks id rt s)
    (hk : s.ops[k]? = some (.notify id' enabled phase)) (hcurrent : Current id rt s (.advance k env))
    (hstep : notifyStep s env id' enabled phase = some (t, op')) : Follows id rt s t (.notify id' enabled phase) op' := by
  simp only [Current, hk] at hcurrent
  cases phase with
  | called =>
    simp only [notifyStep] at hstep
    split at hstep
    · next rt' hget =>
      obtain ⟨rfl, rfl⟩ := Prod.mk.inj (Option.some.inj hstep)
      refine .same ⟨?_, ?_⟩ fun h => by cases h
      · rintro rfl
        exact Option.some.inj (hget.symm.trans hlive)
      · rintro rfl
        exact hT.own id' hget
    · obtain ⟨rfl, rfl⟩ := Prod.mk.inj (Option.some.inj hstep)
      exact .same trivial fun h => by cases h
  | holding rt' =>
    obtain ⟨r, hr, heq⟩ := Option.map_eq_some_iff.mp hstep
    split at heq
    · obtain ⟨rfl, rfl⟩ := Prod.mk.inj heq
      exact .same trivial fun h => by cases h
    · next hrunning =>
      obtain ⟨rfl, rfl⟩ := Prod.mk.inj heq
      refine ⟨handed_setRuntime hr (fun h => absurd h hrunning) (fun h => ?_), htracks, fun h hagreed => ?_⟩
      · rw [Runtime.set_eq]
        split <;> exact h
      · by_cases hrt : rt' = rt
        · subst hrt
          exact absurd (handed_some hr h).1 hrunning
        · have hold : s.Agreed id rt := hagreed.resolve_right fun h => by cases h
          exact .inl (hold.trans (metadata_setRuntime_ne _ hrt).symm)
  | writing rt' m previous =>
    simp only [notifyStep] at hstep
    split at hstep
    · next hok =>
      obtain ⟨rfl, rfl⟩ := Prod.mk.inj (Option.some.inj hstep)
      refine ⟨fun h => h, trivial, fun h hagreed => .inl ?_⟩
      refine agreed_write hT.row true (fun hid => hcurrent hid h hok) fun hid => ?_
      refine hagreed.resolve_right fun h => ?_
      exact hid (beq_iff_eq.mp (Bool.and_eq_true_iff.mp h).1)
    · obtain ⟨rfl, rfl⟩ := Prod.mk.inj (Option.some.inj hstep)
      exact .same htracks fun h => h
  | rollback rt' previous =>
    obtain ⟨r, hr, heq⟩ := Option.map_eq_some_iff.mp hstep
    obtain ⟨rfl, rfl⟩ := Prod.mk.inj heq
    refine ⟨handed_setRuntime hr (fun h => (Runtime.setNotificationsEnabled_completed _).trans h) (fun h => ?_),
      trivial, fun h hagreed => .inl ?_⟩
    · rw [Runtime.set_eq]
      split <;> exact h
    · by_cases hid : id' = id
      · obtain rfl : rt' = rt := htracks.mp hid
        have hrow := hcurrent hid h
        rw [hr] at hrow
        exact hrow.trans (metadata_setRuntime_self hr).symm
      · have hrt : rt' ≠ rt := fun h => hid (htracks.mpr h)
        have hold : s.Agreed id rt := hagreed.resolve_right fun h => hid (beq_iff_eq.mp (Bool.and_eq_true_iff.mp h).1)
        exact hold.trans (metadata_setRuntime_ne _ hrt).symm
  | returned ok => cases hstep

theorem follows_sweep {phase : SweepPhase Id} (hT : Tracked id rt s)
    (hlive : s.live.get? id = some rt) (htracks : (Op.sweep phase).Tracks id rt s)
    (hk : s.ops[k]? = some (.sweep phase)) (hcurrent : Current id rt s (.advance k env))
    (hstep : sweepStep s env phase = some (t, op')) : Follows id rt s t (.sweep phase) op' := by
  simp only [Current, hk] at hcurrent
  cases phase with
  | called =>
    obtain ⟨rfl, rfl⟩ := Prod.mk.inj (Option.some.inj hstep)
    refine .same ⟨fun e he hid => ?_, fun e he => by cases he⟩ fun h => by cases h
    have hget := SortedMap.get?_of_mem he
    rw [hid, hlive] at hget
    exact (Option.some.inj hget).symm
  | collecting all todo toPersist =>
    rcases todo with _ | ⟨⟨id', rt'⟩, todo⟩
    · obtain ⟨rfl, rfl⟩ := Prod.mk.inj (Option.some.inj hstep)
      exact .same htracks.2 fun h => by cases h
    · obtain ⟨r, hr, heq⟩ := Option.map_eq_some_iff.mp hstep
      have hrest : ∀ e ∈ todo, e.1 = id → e.2 = rt := fun e he => htracks.1 e (List.mem_cons_of_mem _ he)
      have hpersisted : (r.refreshStatus env.now env.child).1.persisted = r.persisted := by
        unfold Runtime.refreshStatus
        split
        · rfl
        · split
          · rfl
          · split <;> rfl
          · rfl
      have hpending : s.Agreed id rt ∨ (Op.sweep (.collecting all ((id', rt') :: todo) toPersist)).pends id rt = true →
          s.Agreed id rt := fun h => h.resolve_right fun h => by cases h
      simp only [] at heq
      split at heq
      · next hdone =>
        obtain ⟨rfl, rfl⟩ := Prod.mk.inj heq
        have hmono : s.handed rt = true →
            (s.setRuntime rt' { (r.refreshStatus env.now env.child).1 with persisted := true }).handed rt = true :=
          handed_setRuntime hr (fun _ => hdone.1) fun _ => rfl
        refine ⟨hmono, ⟨hrest, fun e he hid => ?_⟩, fun h hagreed => .inl ?_⟩
        · rcases List.mem_append.mp he with hold | hnew
          · exact hmono (htracks.2 e hold hid)
          · rw [List.mem_singleton.mp hnew] at hid
            obtain rfl : rt' = rt := htracks.1 _ List.mem_cons_self hid
            unfold SessionStore.handed SessionStore.setRuntime
            rw [List.getElem?_set_self (List.getElem?_eq_some_iff.mp hr).1, Option.any_some, Bool.and_true]
            exact hdone.1
        · have hrt : rt' ≠ rt := by
            rintro rfl
            rw [hpersisted, (handed_some hr h).2] at hdone
            cases hdone.2
          exact (hpending hagreed).trans (metadata_setRuntime_ne _ hrt).symm
      · obtain ⟨rfl, rfl⟩ := Prod.mk.inj heq
        have hmono : s.handed rt = true → (s.setRuntime rt' (r.refreshStatus env.now env.child).1).handed rt = true :=
          handed_setRuntime hr (refreshed_completed env.now env.child) fun h => hpersisted.trans h
        refine ⟨hmono, ⟨hrest, fun e he hid => hmono (htracks.2 e he hid)⟩, fun h hagreed => .inl ?_⟩
        by_cases hrt : rt' = rt
        · subst hrt
          refine (hpending hagreed).trans ?_
          rw [metadata_setRuntime_self hr, Runtime.refreshStatus_of_completed (handed_some hr h).1]
          unfold SessionStore.metadata
          rw [hr]
          rfl
        · exact (hpending hagreed).trans (metadata_setRuntime_ne _ hrt).symm
  | persisting all toPersist =>
    rcases toPersist with _ | ⟨⟨id', m⟩, toPersist⟩
    · obtain ⟨rfl, rfl⟩ := Prod.mk.inj (Option.some.inj hstep)
      exact .same trivial fun h => by cases h
    · obtain ⟨rfl, rfl⟩ := Prod.mk.inj (Option.some.inj hstep)
      have hhanded : ∀ ok : Bool, (if ok then s.updateSession id' m else s).handed rt = s.handed rt := fun ok => by
        cases ok <;> rfl
      refine ⟨fun h => (hhanded _).trans h, fun e he hid => (hhanded _).trans (htracks e (List.mem_cons_of_mem _ he) hid),
        fun h hagreed => .inl (agreed_write hT.row _ (fun hid => ?_) fun _ => ?_)⟩
      · cases hok : env.ok with
        | true => exact hcurrent hid h hok
        | false => exact hagreed.resolve_right fun h => by cases h
      · exact hagreed.resolve_right fun h => by cases h
  | evicting todo evicted =>
    rcases todo with _ | ⟨⟨id', rt'⟩, todo⟩
    · obtain ⟨rfl, rfl⟩ := Prod.mk.inj (Option.some.inj hstep)
      exact .same trivial fun h => by cases h
    · obtain ⟨r, hr, heq⟩ := Option.map_eq_some_iff.mp hstep
      split at heq
      all_goals obtain ⟨rfl, rfl⟩ := Prod.mk.inj heq
      all_goals exact .same trivial fun h => by cases h
  | unlinking evicted | entombing evicted =>
    obtain ⟨rfl, rfl⟩ := Prod.mk.inj (Option.some.inj hstep)
    exact ⟨fun h => h, trivial, fun _ h => .inl (h.resolve_right fun h => by cases h)⟩
  | returned => cases hstep

theorem Op.onMetadata_cases (hop : op.onMetadata = true) (hstep : opStep maxRunningSessions s env op = some (t, op')) :
    (∃ id change phase, op = .update id change phase ∧ updateStep s env id change phase = some (t, op')) ∨
    (∃ id enabled phase, op = .notify id enabled phase ∧ notifyStep s env id enabled phase = some (t, op')) ∨
    ∃ phase, op = .sweep phase ∧ sweepStep s env phase = some (t, op') := by
  cases op with
  | start phase n =>
    cases phase with
    | returned result => cases hstep
    | _ => cases hop
  | delete id force phase =>
    cases phase with
    | returned kill result => cases hstep
    | _ => cases hop
  | update id change phase => exact .inl ⟨id, change, phase, rfl, hstep⟩
  | notify id enabled phase => exact .inr (.inl ⟨id, enabled, phase, rfl, hstep⟩)
  | sweep phase => exact .inr (.inr ⟨phase, rfl, hstep⟩)

theorem live_of_settles (hs : Settles s t) (h : t.live.get? id = some rt) : s.live.get? id = some rt :=
  SortedMap.get?_of_mem (hs.live.subset (SortedMap.mem_of_get? h))

/-- One of the operations has taken a step, and the others still know what they know. -/
theorem recorded_set (hT : Tracked id rt s) (hs : Settles s t) (hrow : t.hasRow id = s.hasRow id)
    (hk : s.ops[k]? = some op) (hfollows : Follows id rt s t op op') :
    Tracked id rt { t with ops := s.ops.set k op' } ∧
      (Recorded id rt s → Recorded id rt { t with ops := s.ops.set k op' }) := by
  refine ⟨⟨hrow.trans hT.row, fun id' hget => hT.own id' (live_of_settles hs hget), fun a hmem => ?_⟩, fun hrecorded => ?_⟩
  · rcases List.mem_or_eq_of_mem_set hmem with hold | rfl
    · exact (hT.ops a hold).mono (t := { t with ops := s.ops.set k op' }) hfollows.handed
    · exact hfollows.tracks.mono (t := { t with ops := s.ops.set k a }) fun h => h
  · obtain ⟨hhanded, hagreed⟩ := hrecorded
    refine ⟨hfollows.handed hhanded, ?_⟩
    have hself : ∀ h : s.Agreed id rt ∨ op.pends id rt = true,
        SessionStore.Agreed { t with ops := s.ops.set k op' } id rt ∨
          ∃ a ∈ s.ops.set k op', a.pends id rt = true := fun h =>
      (hfollows.agreed hhanded h).imp_right fun hpends =>
        ⟨op', List.mem_of_getElem? (List.getElem?_set_self (List.getElem?_eq_some_iff.mp hk).1), hpends⟩
    rcases hagreed with hagreed | ⟨a, hmem, hpends⟩
    · exact hself (.inl hagreed)
    · obtain ⟨i, hi⟩ := List.mem_iff_getElem?.mp hmem
      by_cases hik : i = k
      · rw [hik, hk] at hi
        obtain rfl : op = a := Option.some.inj hi
        exact hself (.inr hpends)
      · exact .inr ⟨a, List.mem_of_getElem? ((List.getElem?_set_ne (Ne.symm hik)).trans hi), hpends⟩

theorem apply_of_completed {r : Runtime} (h : r.isCompleted = true) (event : Runtime.Event) :
    (r.apply event).persisted = r.persisted ∧
      ((∀ title, event ≠ .terminalTitle title) → (r.apply event).metadata = r.metadata) := by
  cases event with
  | refresh now child =>
    show (r.refreshStatus now child).1.persisted = _ ∧ (_ → (r.refreshStatus now child).1.metadata = _)
    rw [Runtime.refreshStatus_of_completed h]
    exact ⟨rfl, fun _ => rfl⟩
  | stop now child kill =>
    show (r.terminate now child _).1.persisted = _ ∧ (_ → (r.terminate now child _).1.metadata = _)
    rw [Runtime.terminate_of_completed h]
    exact ⟨rfl, fun _ => rfl⟩
  | force now child killed after =>
    show (r.forceKill now child killed after).1.persisted = _ ∧ (_ → (r.forceKill now child killed after).1.metadata = _)
    rw [Runtime.forceKill_of_completed h]
    exact ⟨rfl, fun _ => rfl⟩
  | terminalTitle title =>
    refine ⟨?_, fun hnot => absurd rfl (hnot title)⟩
    show (r.applyTerminalTitle title).persisted = _
    unfold Runtime.applyTerminalTitle
    split <;> rfl
  | closeOutput | scanned => exact ⟨rfl, fun _ => rfl⟩

theorem apply_persisted (r : Runtime) (event : Runtime.Event) (h : r.isCompleted = true ∧ r.persisted = true) :
    (r.apply event).persisted = true :=
  (apply_of_completed h.1 event).1.trans h.2

theorem recorded_step {action : Action Id} (h : Served s) (hT : s.live.get? id = some rt → Tracked id rt s)
    (hC : action.onMetadata = true ∧ Current id rt s action) (hstep : s.step maxRunningSessions action = some t)
    (hlive : t.live.get? id = some rt) :
    s.live.get? id = some rt ∧ Tracked id rt t ∧ (Recorded id rt s → Recorded id rt t) := by
  obtain ⟨haction, hcurrent⟩ := hC
  cases action with
  | call request =>
    obtain rfl := step_call hstep
    have hT := hT hlive
    refine ⟨hlive, ⟨hT.row, hT.own, fun op hmem => ?_⟩, fun hrecorded => ⟨hrecorded.1, ?_⟩⟩
    · rcases List.mem_append.mp hmem with hold | hnew
      · exact (hT.ops op hold).mono (t := { s with ops := s.ops ++ [request.op] }) fun h => h
      · rw [List.mem_singleton.mp hnew]
        cases request <;> trivial
    · exact hrecorded.2.imp_right fun ⟨op, hmem, hpends⟩ => ⟨op, List.mem_append_left _ hmem, hpends⟩
  | advance k env =>
    obtain ⟨op, t', op', hk, hop, rfl⟩ := step_advance hstep
    rcases Op.onMetadata_cases (h.metadata op (List.mem_of_getElem? hk)) hop with
      ⟨id', change, phase, rfl, hop⟩ | ⟨id', enabled, phase, rfl, hop⟩ | ⟨phase, rfl, hop⟩
    · have hs := (settles_update hop).1
      have hlive' := live_of_settles hs hlive
      have hT := hT hlive'
      refine ⟨hlive', recorded_set hT hs (agree_update hop id).row hk ?_⟩
      exact follows_update hT hlive' (hT.ops _ (List.mem_of_getElem? hk)) hk hcurrent hop
    · have hs := (settles_notify hop).1
      have hlive' := live_of_settles hs hlive
      have hT := hT hlive'
      refine ⟨hlive', recorded_set hT hs (agree_notify hop id).row hk ?_⟩
      exact follows_notify hT hlive' (hT.ops _ (List.mem_of_getElem? hk)) hk hcurrent hop
    · have hs := (settles_sweep hop).1
      have hlive' := live_of_settles hs hlive
      have hT := hT hlive'
      refine ⟨hlive', recorded_set hT hs (agree_sweep hop id).row hk ?_⟩
      exact follows_sweep hT hlive' (hT.ops _ (List.mem_of_getElem? hk)) hk hcurrent hop
  | runtime rt' event =>
    obtain ⟨r, hr, rfl⟩ := step_runtime hstep
    have hT := hT hlive
    have hmono : s.handed rt = true → (s.setRuntime rt' (r.apply event)).handed rt = true := fun hhanded => by
      by_cases hrt : rt' = rt
      · subst hrt
        have hdone := handed_some hr hhanded
        exact handed_setRuntime hr (fun h => Runtime.apply_completed h event) (fun _ => apply_persisted r event hdone) hhanded
      · unfold SessionStore.handed SessionStore.setRuntime
        rw [List.getElem?_set_ne hrt]
        exact hhanded
    refine ⟨hlive, ⟨hT.row, hT.own, fun op hmem => (hT.ops op hmem).mono hmono⟩, fun hrecorded => ?_⟩
    refine ⟨hmono hrecorded.1, hrecorded.2.imp_left fun hagreed => ?_⟩
    by_cases hrt : rt' = rt
    · subst hrt
      have hdone := handed_some hr hrecorded.1
      have hsame : (r.apply event).metadata = r.metadata := by
        by_cases htitle : ∀ title, event ≠ .terminalTitle title
        · exact (apply_of_completed hdone.1 event).2 htitle
        · obtain ⟨title, htitle⟩ := not_forall.mp htitle
          obtain rfl := not_not.mp htitle
          exact hcurrent rfl hrecorded.1 r hr
      have hold : s.rows.get? id = s.metadata rt' := hagreed
      show s.rows.get? id = (s.setRuntime rt' (r.apply event)).metadata rt'
      rw [metadata_setRuntime_self hr, hsame, hold]
      unfold SessionStore.metadata
      rw [hr]
      rfl
    · have hold : s.rows.get? id = s.metadata rt := hagreed
      exact hold.trans (metadata_setRuntime_ne _ hrt).symm
  | forget id' =>
    obtain rfl := step_forget hstep
    have hT := hT hlive
    exact ⟨hlive, ⟨hT.row, hT.own, fun op hmem => (hT.ops op hmem).mono (t := { s with evicted := s.evicted.erase id' }) fun h => h⟩,
      fun h => h⟩
  | restart | reconcile => cases haction

/-- What is kept up from the start of the run on. -/
def TrackedInv (id : Id) (rt : ℕ) (s : SessionStore Id) : Prop :=
  Served s ∧ (s.live.get? id = some rt → Tracked id rt s)

theorem trackedInv_step {action : Action Id} (h : TrackedInv id rt s)
    (hC : action.onMetadata = true ∧ Current id rt s action) (hstep : s.step maxRunningSessions action = some t) :
    TrackedInv id rt t :=
  ⟨served_step h.1 hC.1 hstep, fun hlive => (recorded_step h.1 h.2 hC hstep hlive).2.1⟩

/-- And from the writing of the completion on. -/
def RecordedInv (id : Id) (rt : ℕ) (s : SessionStore Id) : Prop :=
  TrackedInv id rt s ∧ (s.live.get? id = some rt → Recorded id rt s)

theorem recordedInv_step {action : Action Id} (h : RecordedInv id rt s)
    (hC : action.onMetadata = true ∧ Current id rt s action) (hstep : s.step maxRunningSessions action = some t) :
    RecordedInv id rt t := by
  refine ⟨trackedInv_step h.1 hC hstep, fun hlive => ?_⟩
  obtain ⟨hlive', -, hrecorded⟩ := recorded_step h.1.1 h.1.2 hC hstep hlive
  exact hrecorded (h.2 hlive')

/-- The completion is written from a snapshot that the runtime still has. -/
theorem recordedInv_write {all : List (Id × ℕ)} {m : SessionMeta} {todo : List (Id × SessionMeta)}
    (h : TrackedInv id rt s) (hC : Current id rt s (.advance k env))
    (hk : s.ops[k]? = some (.sweep (.persisting all ((id, m) :: todo)))) (hok : env.ok = true)
    (hstep : s.step maxRunningSessions (.advance k env) = some t) : RecordedInv id rt t := by
  refine ⟨trackedInv_step h ⟨rfl, hC⟩ hstep, fun hlive => ?_⟩
  obtain ⟨op, t', op', hk', hop, rfl⟩ := step_advance hstep
  rw [hk] at hk'
  obtain rfl := Option.some.inj hk'
  have hop : sweepStep s env (.persisting all ((id, m) :: todo)) = some (t', op') := hop
  have hlive' : s.live.get? id = some rt := live_of_settles (settles_sweep hop).1 hlive
  have hT := h.2 hlive'
  have hhanded : s.handed rt = true := hT.ops _ (List.mem_of_getElem? hk) _ List.mem_cons_self rfl
  have hcurrent := hC
  simp only [Current, hk] at hcurrent
  have hmetadata : s.metadata rt = some m := hcurrent trivial hhanded hok
  obtain ⟨rfl, rfl⟩ := Prod.mk.inj (Option.some.inj hop)
  have hagreed : (if env.ok then s.updateSession id m else s).Agreed id rt := by
    refine agreed_write hT.row _ (fun _ => ?_) fun hne => absurd rfl hne
    rw [if_pos hok]
    exact hmetadata
  have hhanded' : (if env.ok then s.updateSession id m else s).handed rt = true := by
    rw [if_pos hok]
    exact hhanded
  exact ⟨hhanded', .inl hagreed⟩

theorem published_tracked (hs : Published s id rt) : TrackedInv id rt s := by
  have hidle : ∀ op ∈ s.ops, op.onMetadata = true := fun op hmem => by
    have hop := hs.idle op hmem
    cases op with
    | start phase n =>
      cases phase with
      | returned result => rfl
      | _ => cases hop
    | delete id force phase =>
      cases phase with
      | returned kill result => rfl
      | _ => cases hop
    | update | notify | sweep => rfl
  refine ⟨⟨hidle, hs.agrees⟩, fun _ => ⟨hs.row, hs.own, fun op hmem => ?_⟩⟩
  have hop := hs.idle op hmem
  cases op with
  | start | delete => trivial
  | update id' change phase =>
    cases phase with
    | returned ok => trivial
    | _ => cases hop
  | notify id' enabled phase =>
    cases phase with
    | returned ok => trivial
    | _ => cases hop
  | sweep phase =>
    cases phase with
    | returned => trivial
    | _ => cases hop

/-- **The row agrees with the runtime.** In every run of updates, changes of the setting and sweeps
on a published session, whose row is written from nothing older than the runtime once its
completion has been handed to a writer, and whose failing edits are harmless: after the completion
has been written, and with nothing in flight, the row is the runtime's metadata; and where an edit
has failed the runtimes are as in the run in which it takes no step. -/
theorem row_agrees {as : List (Action Id)} (hs : Published s id rt)
    (hrun : Runs.run (SessionStore.step maxRunningSessions) s as = some t)
    (hactions : ∀ action ∈ as, action.onMetadata = true)
    (hcurrent : Runs.Meets (SessionStore.step maxRunningSessions) (Current id rt) s as)
    (hharmless : ∀ k op, t.ops[k]? = some op → op.idle = true → op.succeeded = false →
      Runs.Meets (SessionStore.step maxRunningSessions) (Harmless k) s as) :
    (∀ as₁ as₂ k env u all m todo, as = as₁ ++ .advance k env :: as₂ →
      Runs.run (SessionStore.step maxRunningSessions) s as₁ = some u →
      u.ops[k]? = some (.sweep (.persisting all ((id, m) :: todo))) → env.ok = true →
      t.live.get? id = some rt → (∀ op ∈ t.ops, op.idle = true) → t.rows.get? id = t.metadata rt) ∧
    (∀ as₁ as₂ request u op, as = as₁ ++ .call request :: as₂ →
      Runs.run (SessionStore.step maxRunningSessions) s as₁ = some u → request.op.edits = true →
      t.ops[u.ops.length]? = some op → op.idle = true → op.succeeded = false →
      ∃ t', Runs.run (SessionStore.step maxRunningSessions) s
          (as₁ ++ .call request :: as₂.filter fun action => !action.advances u.ops.length) = some t' ∧
        t'.runtimes = t.runtimes) := by
  have hmeets := (Runs.meets_of_forall (C := fun (_ : SessionStore Id) (action : Action Id) => action.onMetadata = true)
    fun action hmem _ => hactions action hmem).and hcurrent
  refine ⟨?_, ?_⟩
  · intro as₁ as₂ k env u all m todo heq hu hk hok hlive hidle
    subst heq
    have htracked : TrackedInv id rt u := Runs.run_invariant_of_meets trackedInv_step hu hmeets.take (published_tracked hs)
    have hmeets' := hmeets.drop hu
    rw [Runs.run_append, hu] at hrun
    obtain ⟨u', hstep, hrun⟩ := Runs.run_cons hrun
    have hwritten : RecordedInv id rt u' := recordedInv_write htracked hmeets'.1.2 hk hok hstep
    have h : RecordedInv id rt t := Runs.run_invariant_of_meets recordedInv_step hrun (hmeets'.tail hstep) hwritten
    refine (h.2 hlive).2.resolve_right ?_
    rintro ⟨op, hmem, hpends⟩
    have hop := hidle op hmem
    unfold Op.pends at hpends
    split at hpends
    all_goals first | cases hop | cases hpends
  · intro as₁ as₂ request u op heq hu hedits hop hidle hfails
    have hharmless' := hharmless _ op hop hidle hfails
    subst heq
    have htracked : TrackedInv id rt u := Runs.run_invariant_of_meets trackedInv_step hu hmeets.take (published_tracked hs)
    have hmeets' := hmeets.drop hu
    have hharmless' := hharmless'.drop hu
    rw [Runs.run_append, hu] at hrun
    obtain ⟨u', hstep, hrun⟩ := Runs.run_cons hrun
    have hserved := served_step htracked.1 hmeets'.1.1 hstep
    have hcalled : u'.ops[u.ops.length]? = some request.op := by
      rw [step_call hstep]
      exact List.getElem?_concat_length
    have hediting : Editing u.ops.length u' := ⟨hserved, request.op, hcalled, hedits⟩
    obtain ⟨t', hrun', hsame⟩ := leftout_run hediting hcalled (by cases request <;> rfl) hrun
      (fun action hmem => hactions action (List.mem_append_right _ (List.mem_cons_of_mem _ hmem)))
      (hharmless'.tail hstep) hop hfails hidle
    refine ⟨t', ?_, hsame⟩
    rw [Runs.run_append, hu]
    show (u.step maxRunningSessions (.call request)).bind _ = some t'
    rw [hstep]
    exact hrun'

end Invariant

/-! ### An ended session -/

/-- A session that runs, as its start has left it. -/
def runningSession : SessionStore ℕ :=
  let m : SessionMeta := ⟨none, [], .running, some 100, none, none, true⟩
  { SessionStore.onDisk (SortedMap.empty.insert 1 m) {1} with
    runtimes := [.spawned m]
    live := SortedMap.empty.insert 1 0 }

/-- What is tried succeeds. -/
def granted : Env ℕ := ⟨true, 7, .running, .running, 1, none⟩

/-- What is tried fails. -/
def denied : Env ℕ := ⟨false, 7, .running, .running, 1, none⟩

/-- A change of the setting fails and is rolled back; then the child exits, and a sweep writes it. -/
def endedInTurn : List (Action ℕ) :=
  [.call (.notify 1 false), .advance 0 granted, .advance 0 granted, .advance 0 denied, .advance 0 granted,
    .runtime 0 (.refresh 7 (.exited 0)), .call .sweep, .advance 1 granted, .advance 1 granted, .advance 1 granted,
    .advance 1 granted, .advance 1 denied, .advance 1 denied, .advance 1 denied, .advance 1 denied, .advance 1 denied]

theorem row_agrees_ended : ∃ t : SessionStore ℕ,
    Runs.run (SessionStore.step 2) runningSession endedInTurn = some t ∧ t.rows.get? 1 = t.metadata 0 ∧
    ∃ t', Runs.run (SessionStore.step 2) runningSession (.call (.notify 1 false) ::
        endedInTurn.tail.filter fun action => !action.advances 0) = some t' ∧ t'.runtimes = t.runtimes := by
  obtain ⟨t, hrun, hfacts⟩ : ∃ t : SessionStore ℕ,
      Runs.run (SessionStore.step 2) runningSession endedInTurn = some t ∧
        decide (t.live.get? 1 = some 0 ∧ t.ops = [.notify 1 false (.returned false), .sweep .returned]) = true := by
    apply (Option.any_eq_true _ _).mp
    decide
  obtain ⟨hlive, hops⟩ := of_decide_eq_true hfacts
  have hpublished : Published runningSession 1 0 := by
    refine ⟨rfl, fun id' hid' => ?_, rfl, fun op hmem => (by cases hmem), fun r hmem => ?_⟩
    · have hmem := SortedMap.mem_of_get? hid'
      exact congrArg Prod.fst (List.mem_singleton.mp hmem)
    · rw [List.mem_singleton.mp hmem]
      rfl
  have hcurrent : Runs.Meets (SessionStore.step 2) (Current 1 0) runningSession endedInTurn := by decide
  have hharmless : ∀ k : ℕ, k < 2 → Runs.Meets (SessionStore.step 2) (Harmless k) runningSession endedInTurn := by decide
  have hshort : ∀ k op, t.ops[k]? = some op → op.idle = true → op.succeeded = false →
      Runs.Meets (SessionStore.step 2) (Harmless k) runningSession endedInTurn := fun k op hk _ _ => by
    have hlt := (List.getElem?_eq_some_iff.mp hk).1
    rw [hops] at hlt
    exact hharmless k hlt
  obtain ⟨u, hu, hk⟩ : ∃ u : SessionStore ℕ,
      Runs.run (SessionStore.step 2) runningSession (endedInTurn.take 10) = some u ∧
        decide (u.ops[1]? = some (Op.sweep (.persisting [(1, 0)]
          [(1, ⟨none, [], .stopped, some 100, some 0, some 7, true⟩)]))) = true := by
    apply (Option.any_eq_true _ _).mp
    decide
  have h := row_agrees hpublished hrun (by decide) hcurrent hshort
  have hidle : ∀ op ∈ t.ops, op.idle = true := by
    intro op hmem
    rw [hops] at hmem
    rcases List.mem_cons.mp hmem with rfl | hmem
    · rfl
    · rw [List.mem_singleton.mp hmem]
      rfl
  have hfailed : t.ops[0]? = some (.notify 1 false (.returned false)) := by rw [hops]; rfl
  exact ⟨t, hrun, h.1 _ (endedInTurn.drop 11) 1 granted u _ _ _ rfl hu (of_decide_eq_true hk) rfl hlive hidle,
    h.2 [] endedInTurn.tail (.notify 1 false) runningSession _ rfl rfl rfl hfailed rfl rfl⟩

/-- An update takes its snapshot while the session runs, and writes it after the completion. -/
def endedMeanwhile : List (Action ℕ) :=
  [.call (.update 1 ⟨none, some ["build"], none⟩), .advance 0 granted, .advance 0 granted,
    .runtime 0 (.refresh 7 (.exited 0)), .call .sweep, .advance 1 granted, .advance 1 granted, .advance 1 granted,
    .advance 1 granted, .advance 0 granted, .advance 1 denied, .advance 1 denied, .advance 1 denied, .advance 1 denied,
    .advance 1 denied]

/-- Every write succeeds, and the ended session's row says that it runs. -/
theorem written_back : ∃ t : SessionStore ℕ,
    Runs.run (SessionStore.step 2) runningSession endedMeanwhile = some t ∧
    t.ops = [.update 1 ⟨none, some ["build"], none⟩ (.returned true), .sweep .returned] ∧
    t.live.get? 1 = some 0 ∧
    t.metadata 0 = some ⟨none, ["build"], .stopped, some 100, some 0, some 7, true⟩ ∧
    t.rows.get? 1 = some ⟨none, ["build"], .running, some 100, none, none, true⟩ := by
  obtain ⟨t, hrun, hfacts⟩ : ∃ t : SessionStore ℕ,
      Runs.run (SessionStore.step 2) runningSession endedMeanwhile = some t ∧
        decide (t.ops = [.update 1 ⟨none, some ["build"], none⟩ (.returned true), .sweep .returned] ∧
          t.live.get? 1 = some 0 ∧
          t.metadata 0 = some ⟨none, ["build"], .stopped, some 100, some 0, some 7, true⟩ ∧
          t.rows.get? 1 = some ⟨none, ["build"], .running, some 100, none, none, true⟩) = true := by
    apply (Option.any_eq_true _ _).mp
    decide
  exact ⟨t, hrun, of_decide_eq_true hfacts⟩

end Store
end OpenRelay
