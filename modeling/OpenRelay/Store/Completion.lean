/-
# The completion is written once

A pass of the sweep that finds a session ended sets the runtime's flag and takes its
metadata under one lock; the row is written later (`session/store/lifecycle.rs`,
`prune_evicted_sessions`). The flag keeps any further pass from doing the same, also
one that runs beside the first. It is not taken back when the write fails: such a
session's row says for ever that it runs (`never_retried`).

In any run of passes the flag tells the truth exactly while no write is outstanding and
none has failed, and a write that succeeds is the end of the session
(`completion_persisted`).

Key theorem: `progress_step`.
-/
import OpenRelay.Store.Agreement

namespace OpenRelay
namespace Store

open Session (SessionStatus ExitCode TryWait)

variable {Id : Type*} [LinearOrder Id]

/-- A pass begins or goes on, something happens to a session, or a tombstone is dropped. -/
def Action.passes : Action Id → Bool
  | .call .sweep | .advance .. | .runtime .. | .forget _ => true
  | _ => false

/-! ### What is outstanding and what came of it -/

def snapshotsOf (id : Id) (toPersist : List (Id × SessionMeta)) : List SessionMeta :=
  (toPersist.filter fun e => decide (e.1 = id)).map Prod.snd

/-- The snapshots of the session's metadata that the operation has yet to write. -/
def Op.carries (id : Id) : Op Id → List SessionMeta
  | .sweep (.collecting _ _ toPersist) | .sweep (.persisting _ toPersist) => snapshotsOf id toPersist
  | _ => []

/-- The snapshots of a session that operations are about to write. -/
def SessionStore.inFlight (s : SessionStore Id) (id : Id) : List SessionMeta := s.ops.flatMap (Op.carries id)

/-- The step is an update of the session's row with its completion; whether it succeeds. -/
def attempted (id : Id) (s : SessionStore Id) : Action Id → Option Bool
  | .advance k env =>
    match s.ops[k]? with
    | some (.sweep (.persisting _ ((id', _) :: _))) => if id' = id then some env.ok else none
    | _ => none
  | _ => none

/-- What came of the updates of a run. -/
def outcomes (maxRunningSessions : ℕ) (id : Id) : SessionStore Id → List (Action Id) → List Bool
  | _, [] => []
  | s, a :: as =>
    (attempted id s a).toList ++ (s.step maxRunningSessions a).elim [] fun t => outcomes maxRunningSessions id t as

def SessionStore.flagged (s : SessionStore Id) (rt : ℕ) : Bool := s.runtimes[rt]?.any fun r => r.persisted

/-- The status, the exit code and the end time are those. -/
def SessionMeta.EndsAs (m last : SessionMeta) : Prop :=
  m.status = last.status ∧ m.exitCode = last.exitCode ∧ m.endedAt = last.endedAt

/-- The session has ended, and its row says how. -/
def EndRecorded (s : SessionStore Id) (id : Id) (rt : ℕ) : Prop :=
  ∃ r m, s.runtimes[rt]? = some r ∧ s.rows.get? id = some m ∧ r.isCompleted = true ∧ m.EndsAs r.metadata

/-- A live session with its row, whose completion has been handed to no one; nothing is in flight. -/
structure Unfinished (s : SessionStore Id) (id : Id) (rt : ℕ) : Prop where
  live : s.live.get? id = some rt
  own : ∀ id', s.live.get? id' = some rt → id' = id
  row : ∃ m, s.rows.get? id = some m ∧ isTerminal m.status = false
  unflagged : ∃ r, s.runtimes[rt]? = some r ∧ r.persisted = false
  idle : ∀ op ∈ s.ops, op.idle = true

/-! ### How far the completion is -/

/-- Where the completion is: not yet taken, taken and outstanding, written, or given up. -/
inductive Stage (row₀ : SessionMeta) (row : Option SessionMeta) (r : Runtime) : List SessionMeta → List Bool → Prop where
  | untaken (hflag : r.persisted = false) (hrow : row = some row₀) : Stage row₀ row r [] []
  | taken (m : SessionMeta) (hflag : r.persisted = true) (hdone : r.isCompleted = true) (hends : m.EndsAs r.metadata)
      (hrow : row = some row₀) : Stage row₀ row r [m] []
  | written (m : SessionMeta) (hflag : r.persisted = true) (hdone : r.isCompleted = true) (hends : m.EndsAs r.metadata)
      (hrow : row = some m) : Stage row₀ row r [] [true]
  | failed (hflag : r.persisted = true) (hdone : r.isCompleted = true) (hrow : row = some row₀) :
      Stage row₀ row r [] [false]

/-- The entries that name the session are its own. -/
def OwnEntries (id : Id) (rt : ℕ) (entries : List (Id × ℕ)) : Prop := ∀ e ∈ entries, e.1 = id ↔ e.2 = rt

/-- A pass, or an operation that has returned. -/
def Op.Passing (id : Id) (rt : ℕ) : Op Id → Prop
  | .sweep (.collecting _ todo _) => OwnEntries id rt todo
  | .sweep _ => True
  | op => op.idle = true

/-- How far the writing of a session's end has come. -/
structure Progress (row₀ : SessionMeta) (id : Id) (rt : ℕ) (s : SessionStore Id) (done : List Bool) : Prop where
  stage : ∃ r, s.runtimes[rt]? = some r ∧ Stage row₀ (s.rows.get? id) r (s.inFlight id) done
  table : OwnEntries id rt s.live.entries
  ops : ∀ op ∈ s.ops, op.Passing id rt

section Runtimes

variable {r : Runtime}

theorem SessionMeta.EndsAs.refl (m : SessionMeta) : m.EndsAs m := ⟨rfl, rfl, rfl⟩

theorem SessionMeta.EndsAs.trans {a b c : SessionMeta} (h : a.EndsAs b) (h' : b.EndsAs c) : a.EndsAs c :=
  ⟨h.1.trans h'.1, h.2.1.trans h'.2.1, h.2.2.trans h'.2.2⟩

theorem refreshStatus_flag (r : Runtime) (now : ℕ) (child : TryWait) :
    (r.refreshStatus now child).1.persisted = r.persisted := by
  unfold Runtime.refreshStatus
  split
  · rfl
  · split
    · rfl
    · split <;> rfl
    · rfl

/-- Only a pass sets the flag. -/
theorem apply_flag (r : Runtime) (event : Runtime.Event) : (r.apply event).persisted = r.persisted := by
  cases event with
  | refresh now child => exact refreshStatus_flag r now child
  | stop now child kill =>
    show (r.terminate now child _).1.persisted = _
    rw [Runtime.terminate_eq]
    split <;> exact refreshStatus_flag r now child
  | force now child killed after =>
    show (r.forceKill now child killed after).1.persisted = _
    rw [Runtime.forceKill_eq]
    split
    · exact refreshStatus_flag r now child
    · split
      · exact (refreshStatus_flag _ now after).trans (refreshStatus_flag r now child)
      · exact refreshStatus_flag r now child
  | terminalTitle title =>
    show (r.applyTerminalTitle title).persisted = _
    unfold Runtime.applyTerminalTitle
    split <;> rfl
  | closeOutput | scanned => rfl

/-- How a session has ended does not change any more. -/
theorem apply_ends (h : r.isCompleted = true) (event : Runtime.Event) : r.metadata.EndsAs (r.apply event).metadata := by
  by_cases htitle : ∃ title, event = .terminalTitle title
  · obtain ⟨title, rfl⟩ := htitle
    show r.metadata.EndsAs (r.applyTerminalTitle title).metadata
    unfold Runtime.applyTerminalTitle
    split
    · exact .refl _
    · exact ⟨rfl, rfl, rfl⟩
  · rw [(apply_of_completed h event).2 fun title ht => htitle ⟨title, ht⟩]
    exact .refl _

theorem Stage.apply {row₀ : SessionMeta} {row : Option SessionMeta} {snapshots : List SessionMeta} {done : List Bool}
    (h : Stage row₀ row r snapshots done) (event : Runtime.Event) : Stage row₀ row (r.apply event) snapshots done := by
  cases h with
  | untaken hflag hrow => exact .untaken ((apply_flag r event).trans hflag) hrow
  | taken m hflag hdone hends hrow =>
    exact .taken m ((apply_flag r event).trans hflag) (Runtime.apply_completed hdone event)
      (hends.trans (apply_ends hdone event)) hrow
  | written m hflag hdone hends hrow =>
    exact .written m ((apply_flag r event).trans hflag) (Runtime.apply_completed hdone event)
      (hends.trans (apply_ends hdone event)) hrow
  | failed hflag hdone hrow =>
    exact .failed ((apply_flag r event).trans hflag) (Runtime.apply_completed hdone event) hrow

end Runtimes

/-! ### One step -/

section Steps

variable {maxRunningSessions : ℕ} {s t : SessionStore Id} {env : Env Id} {id : Id} {rt k : ℕ} {op op' : Op Id}
  {row₀ : SessionMeta} {done : List Bool}

/-- What is outstanding, around one operation. -/
theorem inFlight_set (hk : s.ops[k]? = some op) (id : Id) (op' : Op Id) :
    ∃ before after, s.inFlight id = before ++ op.carries id ++ after ∧
      (s.ops.set k op').flatMap (Op.carries id) = before ++ op'.carries id ++ after := by
  obtain ⟨hlt, hget⟩ := List.getElem?_eq_some_iff.mp hk
  refine ⟨(s.ops.take k).flatMap (Op.carries id), (s.ops.drop (k + 1)).flatMap (Op.carries id), ?_, ?_⟩
  · unfold SessionStore.inFlight
    have hsplit : s.ops = s.ops.take k ++ op :: s.ops.drop (k + 1) := by
      rw [← hget, List.getElem_cons_drop, List.take_append_drop]
    conv_lhs => rw [hsplit]
    rw [List.flatMap_append, List.flatMap_cons, List.append_assoc]
  · rw [List.set_eq_take_append_cons_drop, if_pos hlt, List.flatMap_append, List.flatMap_cons, List.append_assoc]

theorem passing_set (h : ∀ op ∈ s.ops, op.Passing id rt) (hop : op'.Passing id rt) :
    ∀ op ∈ s.ops.set k op', op.Passing id rt := by
  intro op hmem
  rcases List.mem_or_eq_of_mem_set hmem with hold | rfl
  · exact h op hold
  · exact hop

/-- A step that neither touches the session nor takes or writes its completion. -/
theorem Progress.moved (h : Progress row₀ id rt s done) (hk : s.ops[k]? = some op)
    (hruntime : t.runtimes[rt]? = s.runtimes[rt]?) (hrow : t.rows.get? id = s.rows.get? id)
    (hlive : ∀ e ∈ t.live.entries, e ∈ s.live.entries) (hcarries : op'.carries id = op.carries id)
    (hop : op'.Passing id rt) : Progress row₀ id rt { t with ops := s.ops.set k op' } done := by
  obtain ⟨before, after, hbefore, hafter⟩ := inFlight_set hk id op'
  obtain ⟨r, hr, hstage⟩ := h.stage
  refine ⟨⟨r, hruntime.trans hr, ?_⟩, fun e he => h.table e (hlive e he), passing_set h.ops hop⟩
  have hsame : SessionStore.inFlight { t with ops := s.ops.set k op' } id = s.inFlight id := by
    rw [hbefore, ← hcarries]
    exact hafter
  rw [hsame]
  show Stage row₀ (t.rows.get? id) r _ done
  rw [hrow]
  exact hstage

theorem snapshotsOf_cons (id id' : Id) (m : SessionMeta) (toPersist : List (Id × SessionMeta)) :
    snapshotsOf id ((id', m) :: toPersist) = if id' = id then m :: snapshotsOf id toPersist else snapshotsOf id toPersist := by
  unfold snapshotsOf
  split
  next hid => rw [List.filter_cons_of_pos (by simpa using hid), List.map_cons]
  next hid => rw [List.filter_cons_of_neg (by simpa using hid)]

theorem snapshotsOf_append (id id' : Id) (m : SessionMeta) (toPersist : List (Id × SessionMeta)) :
    snapshotsOf id (toPersist ++ [(id', m)]) = snapshotsOf id toPersist ++ if id' = id then [m] else [] := by
  unfold snapshotsOf
  rw [List.filter_append, List.map_append]
  exact congrArg (_ ++ ·) (snapshotsOf_cons id id' m [])

/-- A pass looks at the session. -/
theorem progress_collect {all todo : List (Id × ℕ)} {toPersist : List (Id × SessionMeta)} {id' : Id} {rt' : ℕ}
    (h : Progress row₀ id rt s done) (hk : s.ops[k]? = some (.sweep (.collecting all ((id', rt') :: todo) toPersist)))
    (hstep : sweepStep s env (.collecting all ((id', rt') :: todo) toPersist) = some (t, op')) :
    Progress row₀ id rt { t with ops := s.ops.set k op' } done := by
  have htodo : OwnEntries id rt ((id', rt') :: todo) := h.ops _ (List.mem_of_getElem? hk)
  have hrest : OwnEntries id rt todo := fun e he => htodo e (List.mem_cons_of_mem _ he)
  obtain ⟨r, hr, heq⟩ := Option.map_eq_some_iff.mp hstep
  have hown : id' = id ↔ rt' = rt := htodo _ List.mem_cons_self
  dsimp only at heq
  by_cases hid : id' = id
  · subst hid
    obtain rfl : rt' = rt := hown.mp rfl
    obtain ⟨r₀, hr₀, hstage⟩ := h.stage
    obtain rfl : r = r₀ := Option.some.inj (hr.symm.trans hr₀)
    have hlt := (List.getElem?_eq_some_iff.mp hr).1
    obtain ⟨before, after, hbefore, hafter⟩ := inFlight_set hk id' op'
    have hrefreshed : Stage row₀ (s.rows.get? id') (r.refreshStatus env.now env.child).1 (s.inFlight id') done :=
      hstage.apply (.refresh env.now env.child)
    split at heq
    · next hdone =>
      obtain ⟨rfl, rfl⟩ := Prod.mk.inj heq
      refine ⟨⟨_, List.getElem?_set_self hlt, ?_⟩, h.table, passing_set h.ops hrest⟩
      show Stage row₀ (s.rows.get? id') _ ((s.ops.set k _).flatMap (Op.carries id')) done
      rw [hafter]
      -- the flag is not set, so nothing is outstanding yet
      generalize hsnapshots : s.inFlight id' = snapshots at hrefreshed hbefore
      cases hrefreshed with
      | untaken hflag hrow =>
        obtain ⟨hhead, htail⟩ := List.append_eq_nil_iff.mp hbefore.symm
        obtain ⟨hhead, hold⟩ := List.append_eq_nil_iff.mp hhead
        have hold : snapshotsOf id' toPersist = [] := hold
        show Stage row₀ _ _ (before ++ snapshotsOf id' (toPersist ++ _) ++ after) []
        rw [hhead, htail, snapshotsOf_append, hold, if_pos rfl]
        exact .taken _ rfl hdone.1 (.refl _) hrow
      | taken m hflag _ _ _ => rw [hflag] at hdone; cases hdone.2
      | written m hflag _ _ _ => rw [hflag] at hdone; cases hdone.2
      | failed hflag _ _ => rw [hflag] at hdone; cases hdone.2
    · obtain ⟨rfl, rfl⟩ := Prod.mk.inj heq
      refine ⟨⟨_, List.getElem?_set_self hlt, ?_⟩, h.table, passing_set h.ops hrest⟩
      show Stage row₀ (s.rows.get? id') _ ((s.ops.set k _).flatMap (Op.carries id')) done
      rw [hafter, show (Op.sweep (.collecting all todo toPersist)).carries id' =
        (Op.sweep (.collecting all ((id', rt') :: todo) toPersist)).carries id' from rfl, ← hbefore]
      exact hrefreshed
  · have hrt : rt' ≠ rt := fun hrt => hid (hown.mpr hrt)
    split at heq
    · obtain ⟨rfl, rfl⟩ := Prod.mk.inj heq
      refine h.moved hk (List.getElem?_set_ne hrt) rfl (fun e he => he) ?_ hrest
      show snapshotsOf id (toPersist ++ _) = snapshotsOf id toPersist
      rw [snapshotsOf_append, if_neg hid, List.append_nil]
    · obtain ⟨rfl, rfl⟩ := Prod.mk.inj heq
      exact h.moved hk (List.getElem?_set_ne hrt) rfl (fun e he => he) rfl hrest

/-- A pass writes a row. -/
theorem progress_persist {all : List (Id × ℕ)} {toPersist : List (Id × SessionMeta)} {id' : Id} {m : SessionMeta}
    (h : Progress row₀ id rt s done) (hk : s.ops[k]? = some (.sweep (.persisting all ((id', m) :: toPersist))))
    (hstep : sweepStep s env (.persisting all ((id', m) :: toPersist)) = some (t, op')) :
    Progress row₀ id rt { t with ops := s.ops.set k op' } (done ++ (attempted id s (.advance k env)).toList) := by
  obtain ⟨rfl, rfl⟩ := Prod.mk.inj (Option.some.inj hstep)
  by_cases hid : id' = id
  · subst hid
    have hattempted : attempted id' s (.advance k env) = some env.ok := by
      simp only [attempted, hk, if_true]
    obtain ⟨r, hr, hstage⟩ := h.stage
    obtain ⟨before, after, hbefore, hafter⟩ := inFlight_set hk id' (.sweep (.persisting all toPersist))
    have hcarries : (Op.sweep (.persisting all ((id', m) :: toPersist))).carries id' =
        m :: (Op.sweep (.persisting all toPersist)).carries id' :=
      (snapshotsOf_cons id' id' m toPersist).trans (if_pos rfl)
    rw [hcarries] at hbefore
    rw [hattempted]
    generalize hsnapshots : s.inFlight id' = snapshots at hstage hbefore
    have hsome : snapshots ≠ [] := by
      rw [hbefore]
      simp
    cases hstage with
    | untaken _ _ => exact absurd rfl hsome
    | written _ _ _ _ _ => exact absurd rfl hsome
    | failed _ _ _ => exact absurd rfl hsome
    | taken m' hflag hdone hends hrow =>
      -- it is the only one
      have hlength := congrArg List.length hbefore
      simp only [List.length_append, List.length_cons, List.length_nil] at hlength
      have hhead : before = [] := List.length_eq_zero_iff.mp (by omega)
      have htail : after = [] := List.length_eq_zero_iff.mp (by omega)
      have hrest : (Op.sweep (.persisting all toPersist)).carries id' = [] := List.length_eq_zero_iff.mp (by omega)
      rw [hhead, htail, hrest] at hbefore hafter
      obtain rfl : m' = m := (List.cons.inj hbefore).1
      cases hok : env.ok with
      | true =>
        refine ⟨⟨r, hr, ?_⟩, h.table, passing_set h.ops trivial⟩
        show Stage row₀ ((s.updateSession id' m').rows.get? id') r ((s.ops.set k _).flatMap (Op.carries id')) [true]
        rw [hafter]
        refine .written m' hflag hdone hends ?_
        rw [get?_updateSession s id' id' m' (by unfold SessionStore.hasRow; rw [hrow]; rfl), if_pos rfl]
      | false =>
        refine ⟨⟨r, hr, ?_⟩, h.table, passing_set h.ops trivial⟩
        show Stage row₀ (s.rows.get? id') r ((s.ops.set k _).flatMap (Op.carries id')) [false]
        rw [hafter]
        exact .failed hflag hdone hrow
  · have hattempted : attempted id s (.advance k env) = none := by
      simp only [attempted, hk, if_neg hid]
    have hcarries : (Op.sweep (.persisting all toPersist)).carries id =
        (Op.sweep (.persisting all ((id', m) :: toPersist))).carries id :=
      ((snapshotsOf_cons id id' m toPersist).trans (if_neg hid)).symm
    rw [hattempted, show done ++ (none : Option Bool).toList = done from List.append_nil done]
    refine (h.moved (t := if env.ok then s.updateSession id' m else s) hk ?_ ?_ ?_ hcarries trivial)
    · cases env.ok <;> rfl
    · cases env.ok with
      | false => rfl
      | true =>
        show (s.rows.adjust id' fun _ => m).get? id = _
        rw [SortedMap.get?_adjust, if_neg (Ne.symm hid)]
    · cases env.ok <;> exact fun e he => he

theorem mem_foldl_erase {e : Id × ℕ} : ∀ (ids : List Id) {m : SortedMap Id ℕ},
    e ∈ (ids.foldl SortedMap.erase m).entries → e ∈ m.entries
  | [], _, h => h
  | _ :: ids, _, h => (List.mem_filter.mp (mem_foldl_erase ids h)).1

theorem progress_sweep {phase : SweepPhase Id} (h : Progress row₀ id rt s done) (hk : s.ops[k]? = some (.sweep phase))
    (hstep : sweepStep s env phase = some (t, op')) :
    Progress row₀ id rt { t with ops := s.ops.set k op' } (done ++ (attempted id s (.advance k env)).toList) := by
  have hunattempted : (∀ all e todo, phase ≠ .persisting all (e :: todo)) →
      done ++ (attempted id s (.advance k env)).toList = done := by
    intro hother
    have hnone : attempted id s (.advance k env) = none := by
      simp only [attempted, hk]
      split
      next heq => cases heq; exact absurd rfl (hother _ _ _)
      next => rfl
    rw [hnone]
    exact List.append_nil done
  cases phase with
  | called =>
    obtain ⟨rfl, rfl⟩ := Prod.mk.inj (Option.some.inj hstep)
    rw [hunattempted fun _ _ _ h => by cases h]
    exact h.moved hk rfl rfl (fun e he => he) rfl h.table
  | collecting all todo toPersist =>
    rw [hunattempted fun _ _ _ h => by cases h]
    rcases todo with _ | ⟨⟨id', rt'⟩, todo⟩
    · obtain ⟨rfl, rfl⟩ := Prod.mk.inj (Option.some.inj hstep)
      exact h.moved hk rfl rfl (fun e he => he) rfl trivial
    · exact progress_collect h hk hstep
  | persisting all toPersist =>
    rcases toPersist with _ | ⟨⟨id', m⟩, toPersist⟩
    · obtain ⟨rfl, rfl⟩ := Prod.mk.inj (Option.some.inj hstep)
      rw [hunattempted fun _ _ _ h => by cases h]
      exact h.moved hk rfl rfl (fun e he => he) rfl trivial
    · exact progress_persist h hk hstep
  | evicting todo evicted =>
    rw [hunattempted fun _ _ _ h => by cases h]
    rcases todo with _ | ⟨⟨id', rt'⟩, todo⟩
    · obtain ⟨rfl, rfl⟩ := Prod.mk.inj (Option.some.inj hstep)
      exact h.moved hk rfl rfl (fun e he => he) rfl trivial
    · obtain ⟨r, _, heq⟩ := Option.map_eq_some_iff.mp hstep
      split at heq
      · obtain ⟨rfl, rfl⟩ := Prod.mk.inj heq
        exact h.moved hk rfl rfl (fun e he => he) rfl trivial
      · obtain ⟨rfl, rfl⟩ := Prod.mk.inj heq
        exact h.moved hk rfl rfl (fun e he => he) rfl trivial
  | unlinking evicted =>
    obtain ⟨rfl, rfl⟩ := Prod.mk.inj (Option.some.inj hstep)
    rw [hunattempted fun _ _ _ h => by cases h]
    exact h.moved hk rfl rfl (fun e he => mem_foldl_erase evicted he) rfl trivial
  | entombing evicted =>
    obtain ⟨rfl, rfl⟩ := Prod.mk.inj (Option.some.inj hstep)
    rw [hunattempted fun _ _ _ h => by cases h]
    exact h.moved hk rfl rfl (fun e he => he) rfl trivial
  | returned => cases hstep

theorem opStep_idle (hidle : op.idle = true) : opStep maxRunningSessions s env op = none := by
  cases op with
  | start phase n => cases phase <;> first | rfl | cases hidle
  | delete id force phase => cases phase <;> first | rfl | cases hidle
  | update id change phase => cases phase <;> first | rfl | cases hidle
  | notify id enabled phase => cases phase <;> first | rfl | cases hidle
  | sweep phase => cases phase <;> first | rfl | cases hidle

/-- **One step.** -/
theorem progress_step {a : Action Id} (h : Progress row₀ id rt s done) (hpasses : a.passes = true)
    (hstep : s.step maxRunningSessions a = some t) :
    Progress row₀ id rt t (done ++ (attempted id s a).toList) := by
  cases a with
  | restart | reconcile => cases hpasses
  | forget id' =>
    obtain rfl := step_forget hstep
    rw [show (attempted id s (.forget id')).toList = [] from rfl, List.append_nil]
    exact ⟨h.stage, h.table, h.ops⟩
  | call request =>
    cases request with
    | start | delete | update | notify => cases hpasses
    | sweep =>
      obtain rfl := step_call hstep
      rw [show (attempted id s (.call .sweep)).toList = [] from rfl, List.append_nil]
      refine ⟨?_, h.table, fun op hmem => ?_⟩
      · obtain ⟨r, hr, hstage⟩ := h.stage
        refine ⟨r, hr, ?_⟩
        show Stage row₀ (s.rows.get? id) r ((s.ops ++ [Op.sweep .called]).flatMap (Op.carries id)) done
        rw [List.flatMap_append]
        show Stage row₀ (s.rows.get? id) r (s.inFlight id ++ []) done
        rwa [List.append_nil]
      · rcases List.mem_append.mp hmem with hold | hnew
        · exact h.ops op hold
        · rw [List.mem_singleton.mp hnew]
          trivial
  | runtime rt' event =>
    obtain ⟨r', hr', rfl⟩ := step_runtime hstep
    rw [show (attempted id s (.runtime rt' event)).toList = [] from rfl, List.append_nil]
    refine ⟨?_, h.table, h.ops⟩
    obtain ⟨r, hr, hstage⟩ := h.stage
    by_cases hrt : rt' = rt
    · subst hrt
      obtain rfl : r' = r := Option.some.inj (hr'.symm.trans hr)
      exact ⟨_, List.getElem?_set_self (List.getElem?_eq_some_iff.mp hr).1, hstage.apply event⟩
    · exact ⟨r, (List.getElem?_set_ne hrt).trans hr, hstage⟩
  | advance k env =>
    obtain ⟨op, t', op', hk, hop, rfl⟩ := step_advance hstep
    have hpassing := h.ops op (List.mem_of_getElem? hk)
    cases op with
    | sweep phase => exact progress_sweep h hk hop
    | start | delete | update | notify =>
      rw [opStep_idle hpassing] at hop
      cases hop

theorem progress_run : ∀ {as : List (Action Id)} {s : SessionStore Id} {done : List Bool},
    Progress row₀ id rt s done → (∀ a ∈ as, a.passes = true) →
    Runs.run (SessionStore.step maxRunningSessions) s as = some t →
    Progress row₀ id rt t (done ++ outcomes maxRunningSessions id s as)
  | [], _, _, h, _, hrun => by
    cases hrun
    rwa [outcomes, List.append_nil]
  | a :: as, s, done, h, hpasses, hrun => by
    obtain ⟨m, hm, hrun⟩ := Runs.run_cons hrun
    have hrest := progress_run (progress_step h (hpasses a List.mem_cons_self) hm)
      (fun b hb => hpasses b (List.mem_cons_of_mem _ hb)) hrun
    rwa [List.append_assoc, show (attempted id s a).toList ++ outcomes maxRunningSessions id m as =
      outcomes maxRunningSessions id s (a :: as) by rw [outcomes, hm]; rfl] at hrest

end Steps

/-! ### Runs of passes -/

theorem carries_idle {op : Op Id} (h : op.idle = true) (id : Id) : op.carries id = [] := by
  cases op with
  | sweep phase => cases phase <;> first | rfl | cases h
  | start | delete | update | notify => rfl

theorem progress_unfinished {s : SessionStore Id} {id : Id} {rt : ℕ} (h : Unfinished s id rt) :
    ∃ row₀, isTerminal row₀.status = false ∧ Progress row₀ id rt s [] := by
  obtain ⟨row₀, hrow, hrunning⟩ := h.row
  obtain ⟨r, hr, hflag⟩ := h.unflagged
  refine ⟨row₀, hrunning, ⟨r, hr, ?_⟩, fun e he => ⟨fun hid => ?_, fun hrt => ?_⟩, fun op hmem => ?_⟩
  · have hnone : s.inFlight id = [] := List.flatMap_eq_nil_iff.mpr fun op hop => carries_idle (h.idle op hop) id
    rw [hnone]
    exact .untaken hflag hrow
  · have hget := SortedMap.get?_of_mem he
    rw [hid, h.live] at hget
    exact (Option.some.inj hget).symm
  · have hget := SortedMap.get?_of_mem he
    rw [hrt] at hget
    exact h.own _ hget
  · have hidle := h.idle op hmem
    cases op with
    | sweep phase => cases phase <;> trivial
    | start | delete | update | notify => exact hidle

/-- **The completion is persisted.** In any run of passes over a session that has not
ended: the flag is true only if the row says how the session has ended, exactly when no
update of it is outstanding and none has failed; and once one has succeeded the row
does. -/
theorem completion_persisted {maxRunningSessions : ℕ} {s t : SessionStore Id} {id : Id} {rt : ℕ} {as : List (Action Id)}
    (hs : Unfinished s id rt) (hpasses : ∀ a ∈ as, a.passes = true)
    (hrun : Runs.run (SessionStore.step maxRunningSessions) s as = some t) :
    ((t.flagged rt = true → EndRecorded t id rt) ↔
      t.inFlight id = [] ∧ false ∉ outcomes maxRunningSessions id s as) ∧
    (true ∈ outcomes maxRunningSessions id s as → EndRecorded t id rt) := by
  obtain ⟨row₀, hrunning, hstart⟩ := progress_unfinished hs
  obtain ⟨r, hr, hstage⟩ := (progress_run hstart hpasses hrun).stage
  rw [List.nil_append] at hstage
  have hflagged : t.flagged rt = r.persisted := by
    unfold SessionStore.flagged
    rw [hr, Option.any_some]
  have hunrecorded : r.isCompleted = true → t.rows.get? id = some row₀ → ¬EndRecorded t id rt := by
    rintro hdone hrow ⟨r', m, hr', hm, _, hends, _⟩
    obtain rfl : r = r' := Option.some.inj (hr.symm.trans hr')
    obtain rfl : row₀ = m := Option.some.inj (hrow.symm.trans hm)
    rw [hends, show isTerminal r.metadata.status = true from hdone] at hrunning
    cases hrunning
  rw [hflagged]
  generalize t.inFlight id = snapshots at hstage ⊢
  generalize outcomes maxRunningSessions id s as = done at hstage ⊢
  cases hstage with
  | untaken hflag hrow =>
    rw [hflag]
    exact ⟨⟨fun _ => ⟨rfl, by simp⟩, fun _ h => by cases h⟩, fun h => by simp at h⟩
  | taken m hflag hdone hends hrow =>
    rw [hflag]
    exact ⟨⟨fun h => absurd (h rfl) (hunrecorded hdone hrow), fun h => by cases h.1⟩, fun h => by simp at h⟩
  | written m hflag hdone hends hrow =>
    have hrecorded : EndRecorded t id rt := ⟨r, m, hr, hrow, hdone, hends⟩
    exact ⟨⟨fun _ => ⟨rfl, by simp⟩, fun _ _ => hrecorded⟩, fun _ => hrecorded⟩
  | failed hflag hdone hrow =>
    rw [hflag]
    exact ⟨⟨fun h => absurd (h rfl) (hunrecorded hdone hrow), fun h => absurd List.mem_cons_self h.2⟩,
      fun h => by simp at h⟩

/-- A session ends, and a pass writes it. -/
def endedAndWritten : List (Action ℕ) :=
  [.runtime 0 (.refresh 7 (.exited 0)), .call .sweep, .advance 0 granted, .advance 0 granted, .advance 0 granted,
    .advance 0 granted]

theorem completion_persisted_written : ∃ t : SessionStore ℕ,
    Runs.run (SessionStore.step 2) runningSession endedAndWritten = some t ∧
    ((t.flagged 0 = true → EndRecorded t 1 0) ↔
      t.inFlight 1 = [] ∧ false ∉ outcomes 2 1 runningSession endedAndWritten) ∧
    (true ∈ outcomes 2 1 runningSession endedAndWritten → EndRecorded t 1 0) := by
  have hunfinished : Unfinished runningSession 1 0 := by
    refine ⟨rfl, fun id' hid' => ?_, ⟨_, rfl, rfl⟩, ⟨_, rfl, rfl⟩, fun op hmem => (by cases hmem)⟩
    have hmem := SortedMap.mem_of_get? hid'
    exact congrArg Prod.fst (List.mem_singleton.mp hmem)
  have hruns : (Runs.run (SessionStore.step 2) runningSession endedAndWritten).isSome = true := by decide
  obtain ⟨t, ht⟩ := Option.isSome_iff_exists.mp hruns
  exact ⟨t, ht, completion_persisted hunfinished (by decide) ht⟩

/-- Two passes over an ended session; the first one's update of the row fails. -/
def endedUnwritten : List (Action ℕ) :=
  [.runtime 0 (.refresh 7 (.exited 0)), .call .sweep, .advance 0 granted, .advance 0 granted, .advance 0 granted,
    .advance 0 denied, .advance 0 denied, .advance 0 denied, .advance 0 denied, .advance 0 denied, .advance 0 denied,
    .call .sweep, .advance 1 granted, .advance 1 granted, .advance 1 granted, .advance 1 granted, .advance 1 denied,
    .advance 1 granted, .advance 1 granted, .advance 1 granted]

/-- **Never retried.** The flag is true, both passes have returned, and the row says that
the session runs. -/
theorem never_retried : ∃ t : SessionStore ℕ,
    Runs.run (SessionStore.step 2) runningSession endedUnwritten = some t ∧
    t.ops = [.sweep .returned, .sweep .returned] ∧ t.flagged 0 = true ∧
    t.metadata 0 = some ⟨none, [], .stopped, some 100, some 0, some 7, true⟩ ∧
    t.rows.get? 1 = some ⟨none, [], .running, some 100, none, none, true⟩ := by
  obtain ⟨t, hrun, hfacts⟩ : ∃ t : SessionStore ℕ,
      Runs.run (SessionStore.step 2) runningSession endedUnwritten = some t ∧
        decide (t.ops = [.sweep .returned, .sweep .returned] ∧ t.flagged 0 = true ∧
          t.metadata 0 = some ⟨none, [], .stopped, some 100, some 0, some 7, true⟩ ∧
          t.rows.get? 1 = some ⟨none, [], .running, some 100, none, none, true⟩) = true := by
    apply (Option.any_eq_true _ _).mp
    decide
  exact ⟨t, hrun, of_decide_eq_true hfacts⟩

end Store
end OpenRelay
