/-
# Live sessions have their row and directory

A start makes the row, then the directory, then the child, and comes into the table last;
a delete takes them away in its own order, with awaits between. In every run in which no
start and delete of one id are in flight together, no kill fails, and neither the deletion
of a live session's row nor the lookup before an undoing does: a live session that nobody
is about to delete has its row and its directory, an undone start leaves nothing, and a
forced delete that succeeds has killed the session and removed it (`live_present`). Nothing
keeps a delete and a start of one id apart (`live_without_row`).

Key theorem: `presenceInv_step`.
-/
import OpenRelay.Store.Admission

namespace OpenRelay
namespace Store

open Session (SessionStatus ExitCode TryWait)

variable {Id : Type*} [LinearOrder Id]

/-! ### What an operation knows -/

/-- The id of a delete that has not returned. -/
def Op.deletes : Op Id → Option Id
  | .delete _ _ (.returned ..) => none
  | .delete id _ _ => some id
  | _ => none

/-- The id whose directory or row a delete may have removed, while it can still be live. -/
def Op.removing : Op Id → Option Id
  | .delete id _ (.deleteRow ..) | .delete id _ (.unlink ..) => some id
  | _ => none

/-- What a start has made, and that it is not published. -/
def StartPhase.Holds (s : SessionStore Id) : StartPhase Id → Prop
  | .called _ | .loaded .. | .inserting .. | .insertFailed _ | .returned _ => True
  | .prepared id _ | .cleanup id _ | .aborting id .release => id ∉ s.live.keys ∧ s.hasRow id = true
  | .housed id _ | .spawned id .. | .updated id .. | .publishing id _ =>
    id ∉ s.live.keys ∧ s.hasRow id = true ∧ id ∈ s.dirs
  | .aborting id .findDir | .aborting id .removeDir => id ∉ s.live.keys ∧ s.hasRow id = true ∧ id ∉ s.starting
  | .aborting id _ => id ∉ s.live.keys ∧ id ∉ s.starting ∧ id ∉ s.dirs

/-- What a delete has found and done. -/
def DeletePhase.Holds (s : SessionStore Id) (id : Id) : DeletePhase → Prop
  | .called | .holding _ | .terminating _ | .killing _ | .returned .. => True
  | .checkTombstone => id ∉ s.live.keys
  | .findDir had kill | .removeDir had kill | .deleteRow had kill => (had = false → id ∉ s.live.keys) ∧ kill ≠ some false
  | .unlink had kill => (had = false → id ∉ s.live.keys) ∧ kill ≠ some false ∧ s.hasRow id = false
  | .untomb kill => id ∉ s.live.keys ∧ kill ≠ some false ∧ s.hasRow id = false

/-- What an operation has found, or made, that is still so. -/
def Op.Holds (s : SessionStore Id) : Op Id → Prop
  | .start phase _ => phase.Holds s
  | .delete id _ phase => phase.Holds s id
  | _ => True

/-- No start and delete of one id are in flight together, a kill succeeds, and so do the deletion
of a live session's row and the query for the directory of one that is undone. -/
def Apart (s : SessionStore Id) : Action Id → Prop
  | .call (.delete id _) => ∀ op ∈ s.ops, op.flying ≠ some id
  | .advance k env =>
    match s.ops[k]? with
    | some (.start (.loaded ..) _) => env.ok = true → ∀ op ∈ s.ops, op.flying ≠ some env.id ∧ op.deletes ≠ some env.id
    | some (.start (.aborting id .findDir) _) => id ∈ s.dirs → env.ok = true
    | some (.delete _ _ (.killing _)) => env.ok = true
    | some (.delete id _ (.deleteRow ..)) => id ∈ s.live.keys → env.ok = true
    | _ => True
  | _ => True

theorem lawfulBEq_of_linearOrder (Id : Type*) [LinearOrder Id] : LawfulBEq Id := inferInstance

instance (s : SessionStore Id) (action : Action Id) : Decidable (Apart s action) := by
  have := lawfulBEq_of_linearOrder Id
  delta Apart
  match action with
  | .call (.delete ..) => infer_instance
  | .call (.start _) | .call (.update ..) | .call (.notify ..) | .call .sweep => exact .isTrue trivial
  | .advance k env =>
    dsimp only
    generalize s.ops[k]? = op
    match op with
    | some (.start (.loaded ..) _) | some (.start (.aborting _ .findDir) _) => infer_instance
    | some (.delete _ _ (.killing _)) | some (.delete _ _ (.deleteRow ..)) => infer_instance
    | some (.start (.called _) _) | some (.start (.inserting ..) _) | some (.start (.insertFailed _) _)
    | some (.start (.prepared ..) _) | some (.start (.housed ..) _) | some (.start (.spawned ..) _)
    | some (.start (.updated ..) _) | some (.start (.publishing ..) _) | some (.start (.cleanup ..) _)
    | some (.start (.aborting _ .release) _) | some (.start (.aborting _ .removeDir) _)
    | some (.start (.aborting _ .deleteRow) _) | some (.start (.aborting _ .getRow) _)
    | some (.start (.aborting _ (.updateRow _)) _) | some (.start (.returned _) _) => exact .isTrue trivial
    | some (.delete _ _ .called) | some (.delete _ _ (.holding _)) | some (.delete _ _ (.terminating _))
    | some (.delete _ _ .checkTombstone) | some (.delete _ _ (.findDir ..)) | some (.delete _ _ (.removeDir ..))
    | some (.delete _ _ (.unlink ..)) | some (.delete _ _ (.untomb _)) | some (.delete _ _ (.returned ..)) =>
      exact .isTrue trivial
    | some (.update ..) | some (.notify ..) | some (.sweep _) | none => exact .isTrue trivial
  | .runtime .. | .forget _ | .restart _ | .reconcile _ => exact .isTrue trivial

/-- What holds of the store in a run whose starts and deletes keep apart. -/
structure PresenceInv (s : SessionStore Id) : Prop where
  apart : ∀ {i j : ℕ} {op op' : Op Id} {id : Id}, s.ops[i]? = some op → s.ops[j]? = some op' →
    op.flying = some id → op'.flying = some id → i = j
  exclusive : ∀ {i j : ℕ} {op op' : Op Id} {id : Id}, s.ops[i]? = some op → s.ops[j]? = some op' →
    op.flying = some id → op'.deletes ≠ some id
  present : ∀ id ∈ s.live.keys, (∀ (i : ℕ) (op : Op Id), s.ops[i]? = some op → op.removing ≠ some id) →
    s.hasRow id = true ∧ id ∈ s.dirs
  holds : ∀ {i : ℕ} {op : Op Id}, s.ops[i]? = some op → op.Holds s

/-! ### What a step leaves alone -/

/-- The two states agree on an id, which may have left the table. -/
structure AgreeAt (s t : SessionStore Id) (id : Id) : Prop where
  row : t.hasRow id = s.hasRow id
  dirs : id ∈ t.dirs ↔ id ∈ s.dirs
  live : id ∈ t.live.keys → id ∈ s.live.keys
  starting : id ∈ t.starting → id ∈ s.starting

section Invariant

variable {maxRunningSessions : ℕ} {s t : SessionStore Id} {k : ℕ} {op op' : Op Id} {id : Id}

theorem AgreeAt.refl (s : SessionStore Id) (id : Id) : AgreeAt s s id := ⟨rfl, .rfl, fun h => h, fun h => h⟩

theorem StartPhase.Holds.agree {phase : StartPhase Id} (h : phase.Holds s)
    (hagree : ∀ id, phase.flying = some id → AgreeAt s t id) : phase.Holds t := by
  cases phase with
  | called | loaded | inserting | insertFailed | returned => trivial
  | prepared id m | cleanup id rt =>
    have ha := hagree id rfl
    exact ⟨fun hlive => h.1 (ha.live hlive), ha.row.trans h.2⟩
  | housed id m | spawned id m rt | updated id rt ok | publishing id rt =>
    have ha := hagree id rfl
    exact ⟨fun hlive => h.1 (ha.live hlive), ha.row.trans h.2.1, ha.dirs.mpr h.2.2⟩
  | aborting id stage =>
    have ha := hagree id rfl
    cases stage with
    | release => exact ⟨fun hlive => h.1 (ha.live hlive), ha.row.trans h.2⟩
    | findDir | removeDir =>
      exact ⟨fun hlive => h.1 (ha.live hlive), ha.row.trans h.2.1, fun hs => h.2.2 (ha.starting hs)⟩
    | deleteRow | getRow | updateRow m =>
      exact ⟨fun hlive => h.1 (ha.live hlive), fun hs => h.2.1 (ha.starting hs), fun hd => h.2.2 (ha.dirs.mp hd)⟩

/-- What a delete knows stays true while its id neither comes into the table nor gets a row. -/
theorem DeletePhase.Holds.mono {phase : DeletePhase} (h : phase.Holds s id)
    (hlive : id ∈ t.live.keys → id ∈ s.live.keys) (hrow : t.hasRow id = true → s.hasRow id = true) :
    phase.Holds t id := by
  have hgone : s.hasRow id = false → t.hasRow id = false := fun hnone =>
    eq_false_of_ne_true fun hsome => by rw [hrow hsome] at hnone; cases hnone
  cases phase with
  | called | holding | terminating | killing | returned => trivial
  | checkTombstone => exact fun hmem => h (hlive hmem)
  | findDir had kill | removeDir had kill | deleteRow had kill => exact ⟨fun hhad hmem => h.1 hhad (hlive hmem), h.2⟩
  | unlink had kill => exact ⟨fun hhad hmem => h.1 hhad (hlive hmem), h.2.1, hgone h.2.2⟩
  | untomb kill => exact ⟨fun hmem => h.1 (hlive hmem), h.2.1, hgone h.2.2⟩

theorem Op.Holds.agree (h : op.Holds s)
    (hagree : ∀ id, op.flying = some id ∨ op.deletes = some id → AgreeAt s t id) : op.Holds t := by
  cases op with
  | start phase n => exact StartPhase.Holds.agree h fun id hid => hagree id (.inl hid)
  | delete id force phase =>
    by_cases hdeletes : (Op.delete id force phase).deletes = some id
    · have ha := hagree id (.inr hdeletes)
      exact DeletePhase.Holds.mono h ha.live fun hrow => ha.row ▸ hrow
    · cases phase with
      | returned => trivial
      | _ => exact absurd rfl hdeletes
  | update | notify | sweep => trivial

/-- One operation takes a step, and the others still know what they know. -/
theorem PresenceInv.moved (h : PresenceInv s) (op' : Op Id)
    (hflying : ∀ id, op'.flying = some id → ∀ (i : ℕ) (a : Op Id), i ≠ k → s.ops[i]? = some a →
      a.flying ≠ some id ∧ a.deletes ≠ some id)
    (hdeletes : ∀ id, op'.deletes = some id → ∀ (i : ℕ) (a : Op Id), i ≠ k → s.ops[i]? = some a → a.flying ≠ some id)
    (hself : ∀ id, op'.flying = some id → op'.deletes ≠ some id)
    (hothers : ∀ (i : ℕ) (a : Op Id), i ≠ k → s.ops[i]? = some a → a.Holds t)
    (hholds : op'.Holds t)
    (hpresent : ∀ id ∈ t.live.keys, op'.removing ≠ some id →
      (∀ (i : ℕ) (a : Op Id), i ≠ k → s.ops[i]? = some a → a.removing ≠ some id) → t.hasRow id = true ∧ id ∈ t.dirs)
    (hk : k < s.ops.length) :
    PresenceInv { t with ops := s.ops.set k op' } := by
  refine ⟨fun hi hj ha hb => ?_, fun hi hj ha hb => ?_, fun id hlive hremoving => ?_, fun hi => ?_⟩
  · rcases getElem?_set_cases hi with ⟨rfl, rfl⟩ | ⟨hik, hi'⟩ <;>
      rcases getElem?_set_cases hj with ⟨rfl, rfl⟩ | ⟨hjk, hj'⟩
    · rfl
    · exact absurd hb (hflying _ ha _ _ hjk hj').1
    · exact absurd ha (hflying _ hb _ _ hik hi').1
    · exact h.apart hi' hj' ha hb
  · rcases getElem?_set_cases hi with ⟨rfl, rfl⟩ | ⟨hik, hi'⟩ <;>
      rcases getElem?_set_cases hj with ⟨rfl, rfl⟩ | ⟨hjk, hj'⟩
    · exact hself _ ha hb
    · exact (hflying _ ha _ _ hjk hj').2 hb
    · exact hdeletes _ hb _ _ hik hi' ha
    · exact h.exclusive hi' hj' ha hb
  · refine hpresent id hlive (hremoving k op' (List.getElem?_set_self hk)) fun i a hik hi => ?_
    exact hremoving i a ((List.getElem?_set_ne (Ne.symm hik)).trans hi)
  · rcases getElem?_set_cases hi with ⟨rfl, rfl⟩ | ⟨hik, hi⟩
    · exact hholds
    · exact hothers _ _ hik hi

/-- A start that holds an id is alone with it. -/
theorem PresenceInv.alone {phase : StartPhase Id} {n : ℕ} (h : PresenceInv s)
    (hk : s.ops[k]? = some (.start phase n)) (hid : phase.flying = some id) (i : ℕ) (a : Op Id) (hik : i ≠ k)
    (hi : s.ops[i]? = some a) : a.flying ≠ some id ∧ a.deletes ≠ some id :=
  ⟨fun ha => hik (h.apart hi hk ha hid), h.exclusive hk hi hid⟩

/-- Nothing but what there is in an id's row, directory and table entry, and the operations. -/
theorem PresenceInv.settled (h : PresenceInv s) (hops : t.ops = s.ops) (hagree : ∀ id, AgreeAt s t id) :
    PresenceInv t := by
  refine ⟨fun hi hj => ?_, fun hi hj => ?_, fun id hlive hremoving => ?_, fun hi => ?_⟩
  · rw [hops] at hi hj
    exact h.apart hi hj
  · rw [hops] at hi hj
    exact h.exclusive hi hj
  · rw [hops] at hremoving
    obtain ⟨hrow, hdir⟩ := h.present id ((hagree id).live hlive) hremoving
    exact ⟨(hagree id).row.trans hrow, (hagree id).dirs.mpr hdir⟩
  · rw [hops] at hi
    exact (h.holds hi).agree fun id _ => hagree id

/-- An operation that concerns no start and no removal goes on. -/
theorem PresenceInv.passed (h : PresenceInv s) (hk : s.ops[k]? = some op) (hagree : ∀ id, AgreeAt s t id)
    (hflying : op'.flying = none) (hdeletes : op'.deletes = none ∨ op'.deletes = op.deletes)
    (hremoving : op.removing = none ∨ op'.removing = op.removing) (hholds : op'.Holds t) :
    PresenceInv { t with ops := s.ops.set k op' } := by
  refine h.moved op' (fun id hid => ?_) (fun id hid i a hik hi ha => ?_) (fun id hid => ?_)
    (fun i a hik hi => (h.holds hi).agree fun id _ => hagree id) hholds (fun id hlive hself hother => ?_)
    (List.getElem?_eq_some_iff.mp hk).1
  · rw [hflying] at hid
    cases hid
  · rcases hdeletes with hnone | hsame
    · rw [hnone] at hid
      cases hid
    · exact h.exclusive hi hk ha (hsame ▸ hid)
  · rw [hflying] at hid
    cases hid
  · obtain ⟨hrow, hdir⟩ := h.present id ((hagree id).live hlive) fun i a hi => by
      by_cases hik : i = k
      · rw [hik, hk] at hi
        obtain rfl : op = a := Option.some.inj hi
        rcases hremoving with hnone | hsame
        · rw [hnone]
          exact fun hid => by cases hid
        · rwa [← hsame]
      · exact hother i a hik hi
    exact ⟨(hagree id).row.trans hrow, (hagree id).dirs.mpr hdir⟩

/-! ### A start's steps -/

section Start

variable {phase : StartPhase Id} {n : ℕ} {env : Env Id}

/-- A start changes nothing but what belongs to its id. -/
theorem PresenceInv.started (h : PresenceInv s) (hk : s.ops[k]? = some op) (phase' : StartPhase Id) (n' : ℕ)
    (halone : ∀ (i : ℕ) (a : Op Id), i ≠ k → s.ops[i]? = some a → a.flying ≠ some id ∧ a.deletes ≠ some id)
    (hstart : op.removing = none)
    (hagree : ∀ id', id' ≠ id → AgreeAt s t id') (hflying : phase'.flying = none ∨ phase'.flying = some id)
    (hholds : phase'.Holds t) (hpresent : id ∈ t.live.keys → t.hasRow id = true ∧ id ∈ t.dirs) :
    PresenceInv { t with ops := s.ops.set k (.start phase' n') } := by
  refine h.moved (.start phase' n') (fun id' hid' => ?_) (fun id' hid' => by cases hid') (fun id' _ hid' => by cases hid')
    (fun i a hik hi => (h.holds hi).agree fun id' hid' => hagree id' ?_) hholds (fun id' hlive _ hother => ?_)
    (List.getElem?_eq_some_iff.mp hk).1
  · have hphase : phase'.flying = some id' := hid'
    rcases hflying with hnone | hsome
    · rw [hnone] at hphase
      cases hphase
    · obtain rfl : id = id' := Option.some.inj (hsome.symm.trans hphase)
      exact halone
  · rintro rfl
    rcases hid' with hfly | hdel
    · exact (halone i a hik hi).1 hfly
    · exact (halone i a hik hi).2 hdel
  · by_cases hid : id' = id
    · subst hid
      exact hpresent hlive
    · have ha := hagree id' hid
      obtain ⟨hrow, hdir⟩ := h.present id' (ha.live hlive) fun i a hi => by
        by_cases hik : i = k
        · rw [hik, hk] at hi
          obtain rfl : op = a := Option.some.inj hi
          rw [hstart]
          exact fun hid => by cases hid
        · exact hother i a hik hi
      exact ⟨ha.row.trans hrow, ha.dirs.mpr hdir⟩

theorem agree_row {rows : SortedMap Id SessionMeta} {id' : Id} (hrow : (rows.get? id').isSome = s.hasRow id') :
    AgreeAt s { s with rows := rows } id' :=
  ⟨hrow, .rfl, fun h => h, fun h => h⟩

theorem agree_insertRow (id' : Id) (hne : id' ≠ id) (m : SessionMeta) :
    AgreeAt s { s with rows := s.rows.insert id m } id' :=
  agree_row (by rw [SortedMap.get?_insert, if_neg hne]; rfl)

theorem agree_eraseRow (id' : Id) (hne : id' ≠ id) : AgreeAt s { s with rows := s.rows.erase id } id' :=
  agree_row (by rw [SortedMap.get?_erase, if_neg hne]; rfl)

theorem hasRow_updateSession (s : SessionStore Id) (id id' : Id) (m : SessionMeta) :
    (s.updateSession id m).hasRow id' = s.hasRow id' := by
  show ((s.rows.adjust id fun _ => m).get? id').isSome = (s.rows.get? id').isSome
  rw [SortedMap.get?_adjust]
  by_cases hid : id' = id
  · rw [if_pos hid, Option.isSome_map]
  · rw [if_neg hid]

theorem agree_updateSession (s : SessionStore Id) (id id' : Id) (m : SessionMeta) :
    AgreeAt s (s.updateSession id m) id' :=
  ⟨hasRow_updateSession s id id' m, .rfl, fun h => h, fun h => h⟩

theorem agree_write (s : SessionStore Id) (ok : Bool) (id id' : Id) (m : SessionMeta) :
    AgreeAt s (if ok then s.updateSession id m else s) id' := by
  split
  · exact agree_updateSession s id id' m
  · exact .refl s id'

theorem agree_insertDir (id' : Id) (hne : id' ≠ id) : AgreeAt s { s with dirs := insert id s.dirs } id' := by
  refine ⟨rfl, ?_, fun h => h, fun h => h⟩
  show id' ∈ insert id s.dirs ↔ _
  rw [Finset.mem_insert]
  exact or_iff_right hne

theorem agree_eraseDir (id' : Id) (hne : id' ≠ id) : AgreeAt s { s with dirs := s.dirs.erase id } id' := by
  refine ⟨rfl, ?_, fun h => h, fun h => h⟩
  show id' ∈ s.dirs.erase id ↔ _
  rw [Finset.mem_erase]
  exact and_iff_right hne

theorem agree_runtimes (s : SessionStore Id) (runtimes : List Runtime) (id' : Id) :
    AgreeAt s { s with runtimes := runtimes } id' :=
  ⟨rfl, .rfl, fun h => h, fun h => h⟩

theorem agree_release (s : SessionStore Id) (id id' : Id) : AgreeAt s (s.release id) id' :=
  ⟨rfl, .rfl, fun h => h, fun h => Finset.mem_of_mem_erase h⟩

theorem notMem_release (s : SessionStore Id) (id : Id) : id ∉ (s.release id).starting := Finset.notMem_erase id s.starting

omit [LinearOrder Id] in
theorem Op.deletes_of_removing {op : Op Id} (h : op.removing = some id) : op.deletes = some id := by
  unfold Op.removing at h
  split at h
  · exact h
  · exact h
  · cases h

/-- No delete is about to remove what a start in flight is about. -/
theorem PresenceInv.alone_present (h : PresenceInv s) (hk : s.ops[k]? = some op) (hstart : op.removing = none)
    (halone : ∀ (i : ℕ) (a : Op Id), i ≠ k → s.ops[i]? = some a → a.flying ≠ some id ∧ a.deletes ≠ some id)
    (hlive : id ∈ s.live.keys) : s.hasRow id = true ∧ id ∈ s.dirs := by
  refine h.present id hlive fun i a hi hremoving => ?_
  by_cases hik : i = k
  · rw [hik, hk] at hi
    obtain rfl : op = a := Option.some.inj hi
    rw [hstart] at hremoving
    cases hremoving
  · exact (halone i a hik hi).2 (Op.deletes_of_removing hremoving)

/-- The steps of the undoing. -/
theorem presenceInv_abort {stage : AbortStage} (h : PresenceInv s) (hk : s.ops[k]? = some (.start (.aborting id stage) n))
    (hquery : stage = .findDir → id ∈ s.dirs → env.ok = true)
    (hstep : startStep maxRunningSessions s env n (.aborting id stage) = some (t, op')) :
    PresenceInv { t with ops := s.ops.set k op' } := by
  have halone := h.alone hk rfl
  have hknown : (StartPhase.aborting id stage).Holds s := h.holds hk
  cases stage with
  | release =>
    obtain ⟨hlive, hrow⟩ := hknown
    obtain ⟨rfl, rfl⟩ := Prod.mk.inj (Option.some.inj hstep)
    exact h.started hk _ _ halone rfl (fun id' _ => agree_release s id id') (.inr rfl)
      ⟨hlive, hrow, notMem_release s id⟩ fun hmem => absurd hmem hlive
  | findDir =>
    obtain ⟨hlive, hrow, hstarting⟩ := hknown
    obtain ⟨rfl, rfl⟩ := Prod.mk.inj (Option.some.inj hstep)
    refine h.started hk _ _ halone rfl (fun id' _ => .refl s id') (.inr rfl) ?_ fun hmem => absurd hmem hlive
    by_cases hfound : env.ok = true ∧ s.hasRow id = true
    · rw [if_pos hfound]
      exact ⟨hlive, hrow, hstarting⟩
    · rw [if_neg hfound]
      exact ⟨hlive, hstarting, fun hdir => hfound ⟨hquery rfl hdir, hrow⟩⟩
  | removeDir =>
    obtain ⟨hlive, hrow, hstarting⟩ := hknown
    simp only [startStep] at hstep
    split at hstep
    · obtain ⟨rfl, rfl⟩ := Prod.mk.inj (Option.some.inj hstep)
      exact h.started hk _ _ halone rfl agree_eraseDir (.inr rfl)
        ⟨hlive, hstarting, Finset.notMem_erase id s.dirs⟩ fun hmem => absurd hmem hlive
    · obtain ⟨rfl, rfl⟩ := Prod.mk.inj (Option.some.inj hstep)
      exact h.started hk _ _ halone rfl (fun id' _ => .refl s id') (.inl rfl) trivial fun hmem => absurd hmem hlive
  | deleteRow =>
    obtain ⟨hlive, hstarting, hdir⟩ := hknown
    simp only [startStep] at hstep
    split at hstep
    · obtain ⟨rfl, rfl⟩ := Prod.mk.inj (Option.some.inj hstep)
      exact h.started hk _ _ halone rfl agree_eraseRow (.inl rfl) trivial fun hmem => absurd hmem hlive
    · obtain ⟨rfl, rfl⟩ := Prod.mk.inj (Option.some.inj hstep)
      exact h.started hk _ _ halone rfl (fun id' _ => .refl s id') (.inr rfl) ⟨hlive, hstarting, hdir⟩
        fun hmem => absurd hmem hlive
  | getRow =>
    obtain ⟨hlive, hstarting, hdir⟩ := hknown
    simp only [startStep] at hstep
    split at hstep
    · obtain ⟨rfl, rfl⟩ := Prod.mk.inj (Option.some.inj hstep)
      exact h.started hk _ _ halone rfl (fun id' _ => .refl s id') (.inr rfl) ⟨hlive, hstarting, hdir⟩
        fun hmem => absurd hmem hlive
    · obtain ⟨rfl, rfl⟩ := Prod.mk.inj (Option.some.inj hstep)
      exact h.started hk _ _ halone rfl (fun id' _ => .refl s id') (.inl rfl) trivial fun hmem => absurd hmem hlive
  | updateRow m =>
    obtain ⟨hlive, hstarting, hdir⟩ := hknown
    obtain ⟨rfl, rfl⟩ := Prod.mk.inj (Option.some.inj hstep)
    refine h.started hk _ _ halone rfl (fun id' _ => agree_write s env.ok id id' m) (.inl rfl) trivial fun hmem => ?_
    exact absurd ((agree_write s env.ok id id m).live hmem) hlive

/-- A step of a start, one case for each phase. -/
theorem presenceInv_start (h : PresenceInv s) (hk : s.ops[k]? = some (.start phase n)) (hapart : Apart s (.advance k env))
    (hstep : startStep maxRunningSessions s env n phase = some (t, op')) :
    PresenceInv { t with ops := s.ops.set k op' } := by
  have hknown : phase.Holds s := h.holds hk
  simp only [Apart, hk] at hapart
  cases phase with
  | called spec =>
    obtain ⟨rfl, rfl⟩ := Prod.mk.inj (Option.some.inj hstep)
    exact h.passed hk (AgreeAt.refl s) rfl (.inl rfl) (.inl rfl) trivial
  | loaded spec count known =>
    simp only [startStep] at hstep
    split at hstep
    · obtain ⟨rfl, rfl⟩ := Prod.mk.inj (Option.some.inj hstep)
      exact h.passed hk (AgreeAt.refl s) rfl (.inl rfl) (.inl rfl) trivial
    · split at hstep
      · obtain ⟨rfl, rfl⟩ := Prod.mk.inj (Option.some.inj hstep)
        exact h.passed hk (AgreeAt.refl s) rfl (.inl rfl) (.inl rfl) trivial
      · next hok =>
        split at hstep
        · cases hstep
        · obtain ⟨rfl, rfl⟩ := Prod.mk.inj (Option.some.inj hstep)
          have hfresh := hapart (eq_true_of_ne_false hok)
          have halone : ∀ (i : ℕ) (a : Op Id), i ≠ k → s.ops[i]? = some a →
              a.flying ≠ some env.id ∧ a.deletes ≠ some env.id := fun i a _ hi => hfresh a (List.mem_of_getElem? hi)
          refine h.started hk _ _ halone rfl (fun id' hne => ?_) (.inr rfl) trivial fun hlive =>
            h.alone_present hk rfl halone hlive
          refine ⟨rfl, .rfl, fun h => h, fun hmem => ?_⟩
          exact (Finset.mem_insert.mp hmem).resolve_left hne
  | inserting id m =>
    have halone := h.alone hk rfl
    simp only [startStep] at hstep
    split at hstep
    · next hfree =>
      obtain ⟨rfl, rfl⟩ := Prod.mk.inj (Option.some.inj hstep)
      -- whoever is in the table has a row
      have hlive : id ∉ s.live.keys := fun hmem => by
        have hrow := (h.alone_present hk rfl halone hmem).1
        rw [hfree.2] at hrow
        cases hrow
      refine h.started hk _ _ halone rfl (fun id' hne => agree_insertRow id' hne m) (.inr rfl) ⟨hlive, ?_⟩
        fun hmem => absurd hmem hlive
      show ((s.rows.insert id m).get? id).isSome = true
      rw [SortedMap.get?_insert, if_pos rfl]
      rfl
    · obtain ⟨rfl, rfl⟩ := Prod.mk.inj (Option.some.inj hstep)
      exact h.started hk _ _ halone rfl (fun id' _ => .refl s id') (.inr rfl) trivial
        fun hmem => h.alone_present hk rfl halone hmem
  | insertFailed id =>
    have halone := h.alone hk rfl
    obtain ⟨rfl, rfl⟩ := Prod.mk.inj (Option.some.inj hstep)
    exact h.started hk _ _ halone rfl (fun id' _ => agree_release s id id') (.inl rfl) trivial
      fun hmem => h.alone_present hk rfl halone hmem
  | prepared id m =>
    have halone := h.alone hk rfl
    obtain ⟨hlive, hrow⟩ := hknown
    simp only [startStep] at hstep
    split at hstep
    · obtain ⟨rfl, rfl⟩ := Prod.mk.inj (Option.some.inj hstep)
      exact h.started hk _ _ halone rfl agree_insertDir (.inr rfl) ⟨hlive, hrow, Finset.mem_insert_self id s.dirs⟩
        fun hmem => absurd hmem hlive
    · obtain ⟨rfl, rfl⟩ := Prod.mk.inj (Option.some.inj hstep)
      exact h.started hk _ _ halone rfl (fun id' _ => .refl s id') (.inr rfl) ⟨hlive, hrow⟩
        fun hmem => absurd hmem hlive
  | housed id m =>
    have halone := h.alone hk rfl
    obtain ⟨hlive, hrow, hdir⟩ := hknown
    simp only [startStep] at hstep
    split at hstep
    · obtain ⟨rfl, rfl⟩ := Prod.mk.inj (Option.some.inj hstep)
      exact h.started hk _ _ halone rfl (fun id' _ => agree_runtimes s _ id') (.inr rfl) ⟨hlive, hrow, hdir⟩
        fun hmem => absurd hmem hlive
    · obtain ⟨rfl, rfl⟩ := Prod.mk.inj (Option.some.inj hstep)
      exact h.started hk _ _ halone rfl (fun id' _ => .refl s id') (.inr rfl) ⟨hlive, hrow⟩
        fun hmem => absurd hmem hlive
  | spawned id m rt =>
    have halone := h.alone hk rfl
    obtain ⟨hlive, hrow, hdir⟩ := hknown
    simp only [startStep] at hstep
    split at hstep
    · obtain ⟨rfl, rfl⟩ := Prod.mk.inj (Option.some.inj hstep)
      exact h.started hk _ _ halone rfl (fun id' _ => agree_updateSession s id id' m) (.inr rfl)
        ⟨hlive, (hasRow_updateSession s id id m).trans hrow, hdir⟩ fun hmem => absurd hmem hlive
    · obtain ⟨rfl, rfl⟩ := Prod.mk.inj (Option.some.inj hstep)
      exact h.started hk _ _ halone rfl (fun id' _ => .refl s id') (.inr rfl) ⟨hlive, hrow, hdir⟩
        fun hmem => absurd hmem hlive
  | updated id rt ok =>
    have halone := h.alone hk rfl
    obtain ⟨hlive, hrow, hdir⟩ := hknown
    obtain ⟨rfl, rfl⟩ := Prod.mk.inj (Option.some.inj hstep)
    refine h.started hk _ _ halone rfl (fun id' _ => agree_release s id id') ?_ ?_ fun hmem => absurd hmem hlive
    · cases ok <;> exact .inr rfl
    · cases ok with
      | true => exact ⟨hlive, hrow, hdir⟩
      | false => exact ⟨hlive, hrow⟩
  | publishing id rt =>
    have halone := h.alone hk rfl
    obtain ⟨hlive, hrow, hdir⟩ := hknown
    obtain ⟨rfl, rfl⟩ := Prod.mk.inj (Option.some.inj hstep)
    refine h.started hk _ _ halone rfl (fun id' hne => ?_) (.inl rfl) trivial fun _ => ⟨hrow, hdir⟩
    exact ⟨rfl, .rfl, fun hmem => ((SortedMap.mem_keys_insert _ _ _ _).mp hmem).resolve_left hne, fun h => h⟩
  | cleanup id rt =>
    have halone := h.alone hk rfl
    obtain ⟨hlive, hrow⟩ := hknown
    obtain ⟨r, hr, heq⟩ := Option.map_eq_some_iff.mp hstep
    obtain ⟨rfl, rfl⟩ := Prod.mk.inj heq
    exact h.started hk _ _ halone rfl (fun id' _ => agree_runtimes s _ id') (.inr rfl) ⟨hlive, hrow⟩
      fun hmem => absurd hmem hlive
  | aborting id stage =>
    refine presenceInv_abort h hk (fun hstage => ?_) hstep
    subst hstage
    exact hapart
  | returned result => cases hstep

end Start

/-! ### A delete's steps -/

section Delete

variable {force : Bool} {phase : DeletePhase} {env : Env Id}

/-- A delete changes nothing but what belongs to its id, and makes nothing. -/
theorem PresenceInv.deleted (h : PresenceInv s) (hk : s.ops[k]? = some op) (hdeletes : op.deletes = some id)
    (phase' : DeletePhase) (hagree : ∀ id', id' ≠ id → AgreeAt s t id')
    (hlive : id ∈ t.live.keys → id ∈ s.live.keys) (hrow : t.hasRow id = true → s.hasRow id = true)
    (hholds : phase'.Holds t id)
    (hpresent : id ∈ t.live.keys → (Op.delete id force phase').removing = some id) :
    PresenceInv { t with ops := s.ops.set k (.delete id force phase') } := by
  have hstarts : ∀ (i : ℕ) (a : Op Id), s.ops[i]? = some a → a.flying ≠ some id := fun i a hi ha =>
    h.exclusive hi hk ha hdeletes
  have hdeletes' : ∀ id', (Op.delete id force phase').deletes = some id' → id' = id := fun id' hid' => by
    unfold Op.deletes at hid'
    split at hid'
    next => cases hid'
    next heq =>
      cases heq
      exact (Option.some.inj hid').symm
    next => cases hid'
  refine h.moved (.delete id force phase') (fun id' hid' => by cases hid') (fun id' hid' i a _ hi => ?_)
    (fun id' hid' => by cases hid') (fun i a hik hi => ?_) hholds (fun id' hlive' hself hother => ?_)
    (List.getElem?_eq_some_iff.mp hk).1
  · rw [hdeletes' id' hid']
    exact hstarts i a hi
  · have hknown := h.holds hi
    cases a with
    | start phase n =>
      refine StartPhase.Holds.agree hknown fun id' hid' => hagree id' ?_
      rintro rfl
      exact hstarts i _ hi hid'
    | delete id' force' phase =>
      by_cases hid : id' = id
      · subst hid
        exact DeletePhase.Holds.mono hknown hlive hrow
      · have ha := hagree id' hid
        exact DeletePhase.Holds.mono hknown ha.live fun h => ha.row ▸ h
    | update | notify | sweep => trivial
  · by_cases hid : id' = id
    · subst hid
      exact absurd (hpresent hlive') hself
    · have ha := hagree id' hid
      obtain ⟨hrow, hdir⟩ := h.present id' (ha.live hlive') fun i a hi hremoving => by
        by_cases hik : i = k
        · rw [hik, hk] at hi
          obtain rfl : op = a := Option.some.inj hi
          exact hid (Option.some.inj ((Op.deletes_of_removing hremoving).symm.trans hdeletes))
        · exact hother i a hik hi hremoving
      exact ⟨ha.row.trans hrow, ha.dirs.mpr hdir⟩

theorem presenceInv_delete (h : PresenceInv s) (hk : s.ops[k]? = some (.delete id force phase))
    (hapart : Apart s (.advance k env)) (hstep : deleteStep s env id force phase = some (t, op')) :
    PresenceInv { t with ops := s.ops.set k op' } := by
  have hknown : phase.Holds s id := h.holds hk
  simp only [Apart, hk] at hapart
  cases phase with
  | called =>
    simp only [deleteStep] at hstep
    split at hstep
    · obtain ⟨rfl, rfl⟩ := Prod.mk.inj (Option.some.inj hstep)
      exact h.passed hk (AgreeAt.refl s) rfl (.inr rfl) (.inl rfl) trivial
    · next hnone =>
      have hlive : id ∉ s.live.keys := fun hmem => by
        rw [SortedMap.mem_keys, hnone] at hmem
        cases hmem
      obtain ⟨rfl, rfl⟩ := Prod.mk.inj (Option.some.inj hstep)
      split
      · exact h.passed hk (AgreeAt.refl s) rfl (.inr rfl) (.inl rfl) ⟨fun _ => hlive, fun h => by cases h⟩
      · exact h.passed hk (AgreeAt.refl s) rfl (.inr rfl) (.inl rfl) hlive
  | holding rt =>
    obtain ⟨r, hr, heq⟩ := Option.map_eq_some_iff.mp hstep
    rcases hrefresh : r.refreshStatus env.now env.child with ⟨r', completed⟩
    simp only [hrefresh] at heq
    obtain ⟨rfl, rfl⟩ := Prod.mk.inj heq
    by_cases hcompleted : completed = true
    · rw [if_pos hcompleted]
      exact h.passed hk (agree_runtimes s _) rfl (.inr rfl) (.inl rfl) ⟨fun h => (by cases h), fun h => by cases h⟩
    · rw [if_neg hcompleted]
      by_cases hforce : force = true
      · rw [if_pos hforce]
        exact h.passed hk (agree_runtimes s _) rfl (.inr rfl) (.inl rfl) trivial
      · rw [if_neg hforce]
        exact h.passed hk (agree_runtimes s _) rfl (.inl rfl) (.inl rfl) trivial
  | terminating rt =>
    obtain ⟨r, hr, heq⟩ := Option.map_eq_some_iff.mp hstep
    rcases hterminate : r.terminate env.now env.child .killed with ⟨r', terminated⟩
    simp only [hterminate] at heq
    obtain ⟨rfl, rfl⟩ := Prod.mk.inj heq
    by_cases hterminated : terminated = true
    · rw [if_pos hterminated]
      exact h.passed hk (agree_runtimes s _) rfl (.inr rfl) (.inl rfl) ⟨fun h => (by cases h), fun h => by cases h⟩
    · rw [if_neg hterminated]
      exact h.passed hk (agree_runtimes s _) rfl (.inr rfl) (.inl rfl) trivial
  | killing rt =>
    obtain ⟨r, hr, heq⟩ := Option.map_eq_some_iff.mp hstep
    have hkilled : (r.forceKill env.now env.child env.ok env.after).2 = true := by
      rw [hapart]
      unfold Runtime.forceKill
      rcases r.refreshStatus env.now env.child with ⟨r', done⟩
      cases done <;> rfl
    rcases hforce : r.forceKill env.now env.child env.ok env.after with ⟨r', killed⟩
    rw [hforce] at hkilled
    obtain rfl : killed = true := hkilled
    simp only [hforce] at heq
    obtain ⟨rfl, rfl⟩ := Prod.mk.inj heq
    exact h.passed hk (agree_runtimes s _) rfl (.inr rfl) (.inl rfl) ⟨fun h => (by cases h), fun h => by cases h⟩
  | checkTombstone =>
    obtain ⟨rfl, rfl⟩ := Prod.mk.inj (Option.some.inj hstep)
    split
    · exact h.passed hk (AgreeAt.refl s) rfl (.inr rfl) (.inl rfl) ⟨fun _ => hknown, fun h => by cases h⟩
    · exact h.passed hk (AgreeAt.refl s) rfl (.inl rfl) (.inl rfl) trivial
  | findDir had kill =>
    obtain ⟨rfl, rfl⟩ := Prod.mk.inj (Option.some.inj hstep)
    split
    · exact h.passed hk (AgreeAt.refl s) rfl (.inr rfl) (.inl rfl) hknown
    · exact h.passed hk (AgreeAt.refl s) rfl (.inr rfl) (.inl rfl) hknown
  | removeDir had kill =>
    simp only [deleteStep] at hstep
    split at hstep
    · obtain ⟨rfl, rfl⟩ := Prod.mk.inj (Option.some.inj hstep)
      exact h.deleted hk rfl _ agree_eraseDir (fun h => h) (fun h => h) hknown fun _ => rfl
    · obtain ⟨rfl, rfl⟩ := Prod.mk.inj (Option.some.inj hstep)
      exact h.passed hk (AgreeAt.refl s) rfl (.inl rfl) (.inl rfl) trivial
  | deleteRow had kill =>
    simp only [deleteStep] at hstep
    split at hstep
    · obtain ⟨rfl, rfl⟩ := Prod.mk.inj (Option.some.inj hstep)
      have hgone : (SessionStore.hasRow { s with rows := s.rows.erase id } id) = false := by
        show ((s.rows.erase id).get? id).isSome = false
        rw [SortedMap.get?_erase, if_pos rfl]
        rfl
      refine h.deleted hk rfl _ agree_eraseRow (fun h => h) (fun hrow => ?_) ⟨hknown.1, hknown.2, hgone⟩ fun _ => rfl
      rw [hgone] at hrow
      cases hrow
    · next hok =>
      obtain ⟨rfl, rfl⟩ := Prod.mk.inj (Option.some.inj hstep)
      exact h.deleted hk rfl _ (fun id' _ => .refl s id') (fun h => h) (fun h => h) trivial
        fun hmem => absurd (hapart hmem) hok
  | unlink had kill =>
    obtain ⟨hhad, hkill, hrow⟩ := hknown
    obtain ⟨rfl, rfl⟩ := Prod.mk.inj (Option.some.inj hstep)
    cases had with
    | true =>
      have hgone : id ∉ (s.live.erase id).keys := fun hmem => ((SortedMap.mem_keys_erase _ _ _).mp hmem).1 rfl
      refine h.deleted hk rfl _ (fun id' _ => ?_) (fun hmem => absurd hmem hgone) (fun h => h)
        ⟨hgone, hkill, hrow⟩ fun hmem => absurd hmem hgone
      exact ⟨rfl, .rfl, fun hmem => ((SortedMap.mem_keys_erase _ _ _).mp hmem).2, fun h => h⟩
    | false =>
      exact h.deleted hk rfl _ (fun id' _ => .refl s id') (fun h => h) (fun h => h) ⟨hhad rfl, hkill, hrow⟩
        fun hmem => absurd hmem (hhad rfl)
  | untomb kill =>
    obtain ⟨rfl, rfl⟩ := Prod.mk.inj (Option.some.inj hstep)
    exact h.passed hk (fun id' => ⟨rfl, .rfl, fun h => h, fun h => h⟩) rfl (.inl rfl) (.inl rfl) trivial
  | returned kill result => cases hstep

end Delete

/-! ### The other operations -/

theorem agree_setRuntime (s : SessionStore Id) (rt : ℕ) (r : Runtime) (id : Id) : AgreeAt s (s.setRuntime rt r) id :=
  agree_runtimes s _ id

theorem agree_update {env : Env Id} {id' : Id} {change : MetadataUpdate} {phase : UpdatePhase}
    (hstep : updateStep s env id' change phase = some (t, op')) (id : Id) : AgreeAt s t id := by
  cases phase with
  | called =>
    simp only [updateStep] at hstep
    split at hstep
    · obtain ⟨rfl, -⟩ := Prod.mk.inj (Option.some.inj hstep)
      exact .refl s id
    · split at hstep
      all_goals obtain ⟨rfl, -⟩ := Prod.mk.inj (Option.some.inj hstep)
      all_goals exact .refl s id
  | holding rt =>
    obtain ⟨r, hr, heq⟩ := Option.map_eq_some_iff.mp hstep
    split at heq
    · obtain ⟨rfl, -⟩ := Prod.mk.inj heq
      exact .refl s id
    · obtain ⟨rfl, -⟩ := Prod.mk.inj heq
      exact agree_setRuntime s rt _ id
  | writing rt m | writingRow m =>
    obtain ⟨rfl, -⟩ := Prod.mk.inj (Option.some.inj hstep)
    exact agree_write s env.ok id' id m
  | offline =>
    simp only [updateStep] at hstep
    split at hstep
    · split at hstep
      all_goals obtain ⟨rfl, -⟩ := Prod.mk.inj (Option.some.inj hstep)
      all_goals exact .refl s id
    · obtain ⟨rfl, -⟩ := Prod.mk.inj (Option.some.inj hstep)
      exact .refl s id
  | returned ok => cases hstep

theorem agree_notify {env : Env Id} {id' : Id} {enabled : Bool} {phase : NotifyPhase}
    (hstep : notifyStep s env id' enabled phase = some (t, op')) (id : Id) : AgreeAt s t id := by
  cases phase with
  | called =>
    simp only [notifyStep] at hstep
    split at hstep
    all_goals obtain ⟨rfl, -⟩ := Prod.mk.inj (Option.some.inj hstep)
    all_goals exact .refl s id
  | holding rt =>
    obtain ⟨r, hr, heq⟩ := Option.map_eq_some_iff.mp hstep
    simp only [] at heq
    split at heq
    · obtain ⟨rfl, -⟩ := Prod.mk.inj heq
      exact .refl s id
    · obtain ⟨rfl, -⟩ := Prod.mk.inj heq
      exact agree_setRuntime s rt _ id
  | writing rt m previous =>
    simp only [notifyStep] at hstep
    split at hstep
    · obtain ⟨rfl, -⟩ := Prod.mk.inj (Option.some.inj hstep)
      exact agree_updateSession s id' id m
    · obtain ⟨rfl, -⟩ := Prod.mk.inj (Option.some.inj hstep)
      exact .refl s id
  | rollback rt previous =>
    obtain ⟨r, hr, heq⟩ := Option.map_eq_some_iff.mp hstep
    obtain ⟨rfl, -⟩ := Prod.mk.inj heq
    exact agree_setRuntime s rt _ id
  | returned ok => cases hstep

theorem mem_keys_foldl_erase {ids : List Id} : ∀ {m : SortedMap Id ℕ},
    id ∈ (ids.foldl SortedMap.erase m).keys → id ∈ m.keys := by
  induction ids with
  | nil => exact fun h => h
  | cons id' ids ih => exact fun h => ((SortedMap.mem_keys_erase _ _ _).mp (ih h)).2

theorem agree_sweep {env : Env Id} {phase : SweepPhase Id}
    (hstep : sweepStep s env phase = some (t, op')) (id : Id) : AgreeAt s t id := by
  cases phase with
  | called =>
    obtain ⟨rfl, -⟩ := Prod.mk.inj (Option.some.inj hstep)
    exact .refl s id
  | collecting all todo toPersist =>
    rcases todo with _ | ⟨⟨id', rt⟩, todo⟩
    · obtain ⟨rfl, -⟩ := Prod.mk.inj (Option.some.inj hstep)
      exact .refl s id
    · obtain ⟨r, hr, heq⟩ := Option.map_eq_some_iff.mp hstep
      simp only [] at heq
      split at heq
      all_goals obtain ⟨rfl, -⟩ := Prod.mk.inj heq
      all_goals exact agree_setRuntime s rt _ id
  | persisting all toPersist =>
    rcases toPersist with _ | ⟨⟨id', m⟩, toPersist⟩
    · obtain ⟨rfl, -⟩ := Prod.mk.inj (Option.some.inj hstep)
      exact .refl s id
    · obtain ⟨rfl, -⟩ := Prod.mk.inj (Option.some.inj hstep)
      exact agree_write s env.ok id' id m
  | evicting todo evicted =>
    rcases todo with _ | ⟨⟨id', rt⟩, todo⟩
    · obtain ⟨rfl, -⟩ := Prod.mk.inj (Option.some.inj hstep)
      exact .refl s id
    · obtain ⟨r, hr, heq⟩ := Option.map_eq_some_iff.mp hstep
      split at heq
      all_goals obtain ⟨rfl, -⟩ := Prod.mk.inj heq
      all_goals exact .refl s id
  | unlinking evicted =>
    obtain ⟨rfl, -⟩ := Prod.mk.inj (Option.some.inj hstep)
    exact ⟨rfl, .rfl, mem_keys_foldl_erase, fun h => h⟩
  | entombing evicted =>
    obtain ⟨rfl, -⟩ := Prod.mk.inj (Option.some.inj hstep)
    exact ⟨rfl, .rfl, fun h => h, fun h => h⟩
  | returned => cases hstep

theorem presenceInv_onDisk (rows : SortedMap Id SessionMeta) (dirs : Finset Id) : PresenceInv (.onDisk rows dirs) where
  apart := fun h => by cases h
  exclusive := fun h => by cases h
  present := fun id h => by cases h
  holds := fun h => by cases h

omit [LinearOrder Id] in
/-- An operation of the list after one was called. -/
theorem getElem?_append_cases {ops : List (Op Id)} {i : ℕ} {new a : Op Id} (h : (ops ++ [new])[i]? = some a) :
    i = ops.length ∧ a = new ∨ ops[i]? = some a := by
  by_cases hlt : i < ops.length
  · rw [List.getElem?_append_left hlt] at h
    exact .inr h
  · rw [List.getElem?_append_right (Nat.not_lt.mp hlt)] at h
    have hlen := (List.getElem?_eq_some_iff.mp h).1
    rw [List.length_singleton] at hlen
    exact .inl ⟨by omega, List.mem_singleton.mp (List.mem_of_getElem? h)⟩

theorem PresenceInv.called (h : PresenceInv s) {request : Request Id} (hapart : Apart s (.call request)) :
    PresenceInv { s with ops := s.ops ++ [request.op] } := by
  have hflying : request.op.flying = none := by cases request <;> rfl
  have hremoving : request.op.removing = none := by cases request <;> rfl
  have hdeletes : ∀ id, request.op.deletes = some id → ∀ op ∈ s.ops, op.flying ≠ some id := fun id hid => by
    cases request with
    | delete id' force =>
      obtain rfl : id' = id := Option.some.inj hid
      exact hapart
    | _ => cases hid
  refine ⟨fun hi hj ha hb => ?_, fun hi hj ha hb => ?_, fun id hlive hnone => ?_, fun hi => ?_⟩
  · rcases getElem?_append_cases hi with ⟨-, rfl⟩ | hi'
    · rw [hflying] at ha
      cases ha
    · rcases getElem?_append_cases hj with ⟨-, rfl⟩ | hj'
      · rw [hflying] at hb
        cases hb
      · exact h.apart hi' hj' ha hb
  · rcases getElem?_append_cases hi with ⟨-, rfl⟩ | hi'
    · rw [hflying] at ha
      cases ha
    · rcases getElem?_append_cases hj with ⟨-, rfl⟩ | hj'
      · exact hdeletes _ hb _ (List.mem_of_getElem? hi') ha
      · exact h.exclusive hi' hj' ha hb
  · refine h.present id hlive fun i op hi => ?_
    exact hnone i op ((List.getElem?_append_left (List.getElem?_eq_some_iff.mp hi).1).trans hi)
  · rcases getElem?_append_cases hi with ⟨-, rfl⟩ | hi'
    · cases request <;> trivial
    · exact (h.holds hi').agree fun id _ => ⟨rfl, .rfl, fun h => h, fun h => h⟩

theorem presenceInv_step {action : Action Id} (h : PresenceInv s) (hapart : Apart s action)
    (hstep : s.step maxRunningSessions action = some t) : PresenceInv t := by
  cases action with
  | call request =>
    rw [step_call hstep]
    exact h.called hapart
  | advance k env =>
    obtain ⟨op, t', op', hk, hop, rfl⟩ := step_advance hstep
    cases op with
    | start phase n => exact presenceInv_start h hk hapart hop
    | delete id force phase => exact presenceInv_delete h hk hapart hop
    | update id change phase =>
      obtain ⟨phase', rfl⟩ := (settles_update hop).2
      exact h.passed hk (agree_update hop) rfl (.inl rfl) (.inl rfl) trivial
    | notify id enabled phase =>
      obtain ⟨phase', rfl⟩ := (settles_notify hop).2
      exact h.passed hk (agree_notify hop) rfl (.inl rfl) (.inl rfl) trivial
    | sweep phase =>
      obtain ⟨phase', rfl⟩ := (settles_sweep hop).2
      exact h.passed hk (agree_sweep hop) rfl (.inl rfl) (.inl rfl) trivial
  | runtime rt event =>
    obtain ⟨r, hr, rfl⟩ := step_runtime hstep
    exact h.settled rfl (agree_setRuntime s rt _)
  | forget id =>
    rw [step_forget hstep]
    exact h.settled rfl fun id => ⟨rfl, .rfl, fun h => h, fun h => h⟩
  | restart ok =>
    obtain rfl : s.restarted ok = t := Option.some.inj hstep
    exact ⟨fun h => (by cases h), fun h => (by cases h), fun id h => (by cases h), fun h => (by cases h)⟩
  | reconcile ok =>
    rcases step_reconcile hstep with rfl | ⟨id', m, todo, -, rfl⟩
    · exact h.settled rfl fun id => ⟨rfl, .rfl, fun h => h, fun h => h⟩
    · cases ok with
      | true => exact h.settled rfl fun id => ⟨hasRow_updateSession s id' id _, .rfl, fun h => h, fun h => h⟩
      | false => exact h.settled rfl fun id => ⟨rfl, .rfl, fun h => h, fun h => h⟩

/-! ### What an operation leaves when it returns -/

theorem hasRow_erase (s : SessionStore Id) (id : Id) : SessionStore.hasRow { s with rows := s.rows.erase id } id = false := by
  show ((s.rows.erase id).get? id).isSome = false
  rw [SortedMap.get?_erase, if_pos rfl]
  rfl

theorem aborted_gone {env : Env Id} {phase : StartPhase Id} {n n' : ℕ} {clean : Bool} (hknown : phase.Holds s)
    (hstep : startStep maxRunningSessions s env n phase = some (t, .start (.returned (.aborted id clean)) n')) :
    id ∉ t.live.keys ∧ id ∉ t.starting ∧ (clean = true → t.hasRow id = false ∧ id ∉ t.dirs) := by
  cases phase with
  | aborting id' stage =>
    cases stage with
    | release =>
      obtain ⟨-, heq⟩ := Prod.mk.inj (Option.some.inj hstep)
      cases heq
    | findDir =>
      obtain ⟨-, heq⟩ := Prod.mk.inj (Option.some.inj hstep)
      cases heq
    | removeDir =>
      obtain ⟨hlive, -, hstarting⟩ := hknown
      simp only [startStep] at hstep
      split at hstep
      · obtain ⟨-, heq⟩ := Prod.mk.inj (Option.some.inj hstep)
        cases heq
      · obtain ⟨rfl, heq⟩ := Prod.mk.inj (Option.some.inj hstep)
        cases heq
        exact ⟨hlive, hstarting, fun h => by cases h⟩
    | deleteRow =>
      obtain ⟨hlive, hstarting, hdir⟩ := hknown
      simp only [startStep] at hstep
      split at hstep
      · obtain ⟨rfl, heq⟩ := Prod.mk.inj (Option.some.inj hstep)
        cases heq
        exact ⟨hlive, hstarting, fun _ => ⟨hasRow_erase s id, hdir⟩⟩
      · obtain ⟨-, heq⟩ := Prod.mk.inj (Option.some.inj hstep)
        cases heq
    | getRow =>
      obtain ⟨hlive, hstarting, -⟩ := hknown
      simp only [startStep] at hstep
      split at hstep
      · obtain ⟨-, heq⟩ := Prod.mk.inj (Option.some.inj hstep)
        cases heq
      · obtain ⟨rfl, heq⟩ := Prod.mk.inj (Option.some.inj hstep)
        cases heq
        exact ⟨hlive, hstarting, fun h => by cases h⟩
    | updateRow m =>
      obtain ⟨hlive, hstarting, -⟩ := hknown
      obtain ⟨rfl, heq⟩ := Prod.mk.inj (Option.some.inj hstep)
      cases heq
      have ha := agree_write s env.ok id id m
      exact ⟨fun h => hlive (ha.live h), fun h => hstarting (ha.starting h), fun h => by cases h⟩
  | called | insertFailed | publishing =>
    obtain ⟨-, heq⟩ := Prod.mk.inj (Option.some.inj hstep)
    cases heq
  | updated id' rt ok =>
    obtain ⟨-, heq⟩ := Prod.mk.inj (Option.some.inj hstep)
    cases ok <;> cases heq
  | cleanup id' rt =>
    obtain ⟨r, -, heq⟩ := Option.map_eq_some_iff.mp hstep
    obtain ⟨-, heq⟩ := Prod.mk.inj heq
    cases heq
  | loaded spec count known =>
    simp only [startStep] at hstep
    split at hstep
    · obtain ⟨-, heq⟩ := Prod.mk.inj (Option.some.inj hstep)
      cases heq
    · split at hstep
      · obtain ⟨-, heq⟩ := Prod.mk.inj (Option.some.inj hstep)
        cases heq
      · split at hstep
        · cases hstep
        · obtain ⟨-, heq⟩ := Prod.mk.inj (Option.some.inj hstep)
          cases heq
  | inserting | prepared | housed | spawned =>
    simp only [startStep] at hstep
    split at hstep
    all_goals obtain ⟨-, heq⟩ := Prod.mk.inj (Option.some.inj hstep)
    all_goals cases heq
  | returned result => cases hstep

theorem startStep_start {env : Env Id} {phase : StartPhase Id} {n : ℕ}
    (hstep : startStep maxRunningSessions s env n phase = some (t, op')) : ∃ phase' n', op' = .start phase' n' := by
  cases phase with
  | called | insertFailed | updated | publishing =>
    obtain ⟨-, rfl⟩ := Prod.mk.inj (Option.some.inj hstep)
    exact ⟨_, _, rfl⟩
  | loaded spec count known =>
    simp only [startStep] at hstep
    split at hstep
    · obtain ⟨-, rfl⟩ := Prod.mk.inj (Option.some.inj hstep)
      exact ⟨_, _, rfl⟩
    · split at hstep
      · obtain ⟨-, rfl⟩ := Prod.mk.inj (Option.some.inj hstep)
        exact ⟨_, _, rfl⟩
      · split at hstep
        · cases hstep
        · obtain ⟨-, rfl⟩ := Prod.mk.inj (Option.some.inj hstep)
          exact ⟨_, _, rfl⟩
  | inserting | prepared | housed | spawned =>
    simp only [startStep] at hstep
    split at hstep
    all_goals obtain ⟨-, rfl⟩ := Prod.mk.inj (Option.some.inj hstep)
    all_goals exact ⟨_, _, rfl⟩
  | cleanup id rt =>
    obtain ⟨r, -, heq⟩ := Option.map_eq_some_iff.mp hstep
    obtain ⟨-, rfl⟩ := Prod.mk.inj heq
    exact ⟨_, _, rfl⟩
  | aborting id stage =>
    cases stage with
    | release | findDir | updateRow =>
      obtain ⟨-, rfl⟩ := Prod.mk.inj (Option.some.inj hstep)
      exact ⟨_, _, rfl⟩
    | removeDir | deleteRow | getRow =>
      simp only [startStep] at hstep
      split at hstep
      all_goals obtain ⟨-, rfl⟩ := Prod.mk.inj (Option.some.inj hstep)
      all_goals exact ⟨_, _, rfl⟩
  | returned result => cases hstep

theorem deleted_gone {env : Env Id} {force : Bool} {phase : DeletePhase} {kill : Option Bool} (hknown : phase.Holds s id)
    (hstep : deleteStep s env id force phase = some (t, .delete id force (.returned kill .deleted))) :
    kill ≠ some false ∧ id ∉ t.live.keys ∧ t.hasRow id = false := by
  cases phase with
  | untomb kill' =>
    obtain ⟨hlive, hkill, hrow⟩ := hknown
    obtain ⟨rfl, heq⟩ := Prod.mk.inj (Option.some.inj hstep)
    cases heq
    exact ⟨hkill, hlive, hrow⟩
  | called =>
    simp only [deleteStep] at hstep
    split at hstep
    · obtain ⟨-, heq⟩ := Prod.mk.inj (Option.some.inj hstep)
      cases heq
    · obtain ⟨-, heq⟩ := Prod.mk.inj (Option.some.inj hstep)
      split at heq <;> cases heq
  | holding rt =>
    obtain ⟨r, -, heq⟩ := Option.map_eq_some_iff.mp hstep
    rcases hrefresh : r.refreshStatus env.now env.child with ⟨r', completed⟩
    simp only [hrefresh] at heq
    obtain ⟨-, heq⟩ := Prod.mk.inj heq
    cases completed with
    | true => cases heq
    | false => cases force <;> cases heq
  | terminating rt =>
    obtain ⟨r, -, heq⟩ := Option.map_eq_some_iff.mp hstep
    rcases hterminate : r.terminate env.now env.child .killed with ⟨r', terminated⟩
    simp only [hterminate] at heq
    obtain ⟨-, heq⟩ := Prod.mk.inj heq
    cases terminated <;> cases heq
  | killing rt =>
    obtain ⟨r, -, heq⟩ := Option.map_eq_some_iff.mp hstep
    rcases hforce : r.forceKill env.now env.child env.ok env.after with ⟨r', killed⟩
    simp only [hforce] at heq
    obtain ⟨-, heq⟩ := Prod.mk.inj heq
    cases heq
  | checkTombstone | findDir had kill' =>
    obtain ⟨-, heq⟩ := Prod.mk.inj (Option.some.inj hstep)
    split at heq <;> cases heq
  | removeDir | deleteRow =>
    simp only [deleteStep] at hstep
    split at hstep
    all_goals obtain ⟨-, heq⟩ := Prod.mk.inj (Option.some.inj hstep)
    all_goals cases heq
  | unlink had kill' =>
    obtain ⟨-, heq⟩ := Prod.mk.inj (Option.some.inj hstep)
    cases heq
  | returned kill' result => cases hstep

/-- What an operation has just become, if it has changed at all. -/
theorem returned_by {action : Action Id} (hstep : s.step maxRunningSessions action = some t) {k : ℕ}
    (hchanged : t.ops[k]? ≠ s.ops[k]?) (hnew : t.ops[k]? = some op') :
    (∃ request : Request Id, op' = request.op) ∨
      ∃ env op t', s.ops[k]? = some op ∧ opStep maxRunningSessions s env op = some (t', op') ∧
        t = { t' with ops := t.ops } := by
  cases action with
  | call request =>
    obtain rfl := step_call hstep
    rcases getElem?_append_cases hnew with ⟨-, rfl⟩ | hold
    · exact .inl ⟨request, rfl⟩
    · exact absurd (hnew.trans hold.symm) hchanged
  | advance k' env =>
    obtain ⟨op, t', op'', hk', hop, rfl⟩ := step_advance hstep
    rcases getElem?_set_cases hnew with ⟨rfl, rfl⟩ | ⟨-, hold⟩
    · exact .inr ⟨env, op, t', hk', hop, rfl⟩
    · exact absurd (hnew.trans hold.symm) hchanged
  | runtime rt event =>
    obtain ⟨r, -, rfl⟩ := step_runtime hstep
    exact absurd rfl hchanged
  | forget id =>
    obtain rfl := step_forget hstep
    exact absurd rfl hchanged
  | restart ok =>
    obtain rfl : s.restarted ok = t := Option.some.inj hstep
    cases hnew
  | reconcile ok =>
    rcases step_reconcile hstep with rfl | ⟨id', m, todo, -, rfl⟩
    · exact absurd rfl hchanged
    · cases ok <;> exact absurd rfl hchanged

/-- **Live sessions have their row and directory.** In every run in which no start and delete of
one id meet, and no kill, no deletion of a live session's row and no query before an undoing
fails: a live session that no start or delete is about has both; and when a start has just been
undone, or a forced delete has just succeeded, nothing of the session is left. -/
theorem live_present {rows : SortedMap Id SessionMeta} {dirs : Finset Id} {as : List (Action Id)}
    (hrun : Runs.run (SessionStore.step maxRunningSessions) (.onDisk rows dirs) as = some s)
    (hapart : Runs.Meets (SessionStore.step maxRunningSessions) Apart (.onDisk rows dirs) as) :
    (∀ id ∈ s.live.keys, (∀ op ∈ s.ops, op.flying ≠ some id ∧ op.deletes ≠ some id) →
      s.hasRow id = true ∧ id ∈ s.dirs) ∧
    ∀ action t, s.step maxRunningSessions action = some t → ∀ k : ℕ, t.ops[k]? ≠ s.ops[k]? →
      (∀ id clean n, t.ops[k]? = some (Op.start (.returned (.aborted id clean)) n) →
        id ∉ t.live.keys ∧ id ∉ t.starting ∧ (clean = true → t.hasRow id = false ∧ id ∉ t.dirs)) ∧
      (∀ id kill, t.ops[k]? = some (Op.delete id true (.returned kill .deleted)) →
        kill ≠ some false ∧ id ∉ t.live.keys ∧ t.hasRow id = false) := by
  have h : PresenceInv s :=
    Runs.run_invariant_of_meets presenceInv_step hrun hapart (presenceInv_onDisk rows dirs)
  refine ⟨fun id hlive hidle => h.present id hlive fun i op hi hremoving => ?_, fun action t hstep k hchanged => ⟨?_, ?_⟩⟩
  · exact (hidle op (List.mem_of_getElem? hi)).2 (Op.deletes_of_removing hremoving)
  · intro id clean n hnew
    rcases returned_by hstep hchanged hnew with ⟨request, heq⟩ | ⟨env, op, t', hk, hop, ht⟩
    · cases request <;> cases heq
    · rw [ht]
      cases op with
      | start phase n' =>
        have hgone := aborted_gone (t := t') (h.holds hk) hop
        exact hgone
      | delete id' force phase =>
        obtain ⟨_, heq⟩ := (settles_delete hop).2
        cases heq
      | update id' change phase =>
        obtain ⟨_, heq⟩ := (settles_update hop).2
        cases heq
      | notify id' enabled phase =>
        obtain ⟨_, heq⟩ := (settles_notify hop).2
        cases heq
      | sweep phase =>
        obtain ⟨_, heq⟩ := (settles_sweep hop).2
        cases heq
  · intro id kill hnew
    rcases returned_by hstep hchanged hnew with ⟨request, heq⟩ | ⟨env, op, t', hk, hop, ht⟩
    · cases request <;> cases heq
    · rw [ht]
      cases op with
      | start phase n' =>
        obtain ⟨phase', n'', heq⟩ := startStep_start hop
        cases heq
      | delete id' force phase =>
        obtain ⟨_, heq⟩ := (settles_delete hop).2
        cases heq
        have hgone := deleted_gone (t := t') (h.holds hk) hop
        exact hgone
      | update id' change phase =>
        obtain ⟨_, heq⟩ := (settles_update hop).2
        cases heq
      | notify id' enabled phase =>
        obtain ⟨_, heq⟩ := (settles_notify hop).2
        cases heq
      | sweep phase =>
        obtain ⟨_, heq⟩ := (settles_sweep hop).2
        cases heq

end Invariant

/-! ### A delete meets a start -/

def removes (id : ℕ) : Request ℕ := .delete id true

/-- Beside a live session the second start's child does not come up, and the start is being undone. -/
def abortedBeside : List (Action ℕ) :=
  [[.call plainStart], List.replicate 8 (.advance 0 (draws 1)), [.call plainStart],
    List.replicate 4 (.advance 1 (draws 2)), [.advance 1 { draws 2 with ok := false }],
    List.replicate 3 (.advance 1 (draws 2))].flatten

/-- Then the live session is deleted by force. -/
def deletedBehind : List (Action ℕ) :=
  [abortedBeside, [.advance 1 (draws 2), .call (removes 1)], List.replicate 8 (.advance 2 (draws 1))].flatten

/-- What is found of `action` behind a run, if it is taken there. -/
def taken (as : List (Action ℕ)) (action : Action ℕ) (p : SessionStore ℕ → SessionStore ℕ → Bool) : Bool :=
  (Runs.run (SessionStore.step 2) (.onDisk .empty ∅) as).any fun s => (s.step 2 action).any (p s)

theorem exists_of_taken {as : List (Action ℕ)} {action : Action ℕ} {p : SessionStore ℕ → SessionStore ℕ → Bool}
    (h : taken as action p = true) : ∃ s t, Runs.run (SessionStore.step 2) (.onDisk .empty ∅) as = some s ∧
      s.step 2 action = some t ∧ p s t = true := by
  obtain ⟨s, hrun, hs⟩ := (Option.any_eq_true _ _).mp h
  obtain ⟨t, hstep, hp⟩ := (Option.any_eq_true _ _).mp hs
  exact ⟨s, t, hrun, hstep, hp⟩

theorem live_present_beside :
    (∃ s t : SessionStore ℕ, Runs.run (SessionStore.step 2) (.onDisk .empty ∅) abortedBeside = some s ∧
      s.step 2 (.advance 1 (draws 2)) = some t ∧ 1 ∈ s.live.keys ∧ s.hasRow 1 = true ∧ 1 ∈ s.dirs ∧
      t.ops[1]? = some (.start (.returned (.aborted 2 true)) 1) ∧ 2 ∉ t.live.keys ∧ t.hasRow 2 = false ∧ 2 ∉ t.dirs) ∧
    ∃ s t : SessionStore ℕ, Runs.run (SessionStore.step 2) (.onDisk .empty ∅) deletedBehind = some s ∧
      s.step 2 (.advance 2 (draws 1)) = some t ∧ t.ops[2]? = some (.delete 1 true (.returned (some true) .deleted)) ∧
      1 ∉ t.live.keys ∧ t.hasRow 1 = false := by
  constructor
  · obtain ⟨s, t, hrun, hstep, hp⟩ := @exists_of_taken abortedBeside (.advance 1 (draws 2)) (fun s t =>
      decide ((1 ∈ s.live.keys ∧ ∀ op ∈ s.ops, op.flying ≠ some 1 ∧ op.deletes ≠ some 1) ∧
        t.ops[1]? = some (Op.start (.returned (.aborted 2 true)) 1) ∧ t.ops[1]? ≠ s.ops[1]?)) (by decide +kernel)
    obtain ⟨⟨hlive, hidle⟩, haborted, hchanged⟩ := of_decide_eq_true hp
    have h := live_present hrun (by decide +kernel)
    obtain ⟨hrow, hdir⟩ := h.1 1 hlive hidle
    obtain ⟨hdead, -, hclean⟩ := (h.2 _ t hstep 1 hchanged).1 2 true 1 haborted
    exact ⟨s, t, hrun, hstep, hlive, hrow, hdir, haborted, hdead, hclean rfl⟩
  · obtain ⟨s, t, hrun, hstep, hp⟩ := @exists_of_taken deletedBehind (.advance 2 (draws 1)) (fun s t =>
      decide (t.ops[2]? = some (Op.delete 1 true (.returned (some true) .deleted)) ∧ t.ops[2]? ≠ s.ops[2]?))
      (by decide +kernel)
    obtain ⟨hdeleted, hchanged⟩ := of_decide_eq_true hp
    have h := live_present hrun (by decide +kernel)
    exact ⟨s, t, hrun, hstep, hdeleted, ((h.2 _ t hstep 2 hchanged).2 1 (some true) hdeleted).2⟩

/-- A delete runs through between a start's row and its directory. -/
def deletedMeanwhile : List (Action ℕ) :=
  [[.call plainStart], List.replicate 3 (.advance 0 (draws 1)), [.call (removes 1)],
    List.replicate 6 (.advance 1 (draws 1)), List.replicate 5 (.advance 0 (draws 1))].flatten

/-- Both succeed, and the live session has no row. -/
theorem live_without_row : ∃ t : SessionStore ℕ,
    Runs.run (SessionStore.step 2) (.onDisk .empty ∅) deletedMeanwhile = some t ∧
    t.ops = [.start (.returned (.committed 1)) 1, .delete 1 true (.returned none .deleted)] ∧
    1 ∈ t.live.keys ∧ t.isRunning 0 = true ∧ t.hasRow 1 = false := by
  obtain ⟨t, hrun, hfacts⟩ : ∃ t : SessionStore ℕ,
      Runs.run (SessionStore.step 2) (.onDisk .empty ∅) deletedMeanwhile = some t ∧
        decide (t.ops = [.start (.returned (.committed 1)) 1, .delete 1 true (.returned none .deleted)] ∧
          1 ∈ t.live.keys ∧ t.isRunning 0 = true ∧ t.hasRow 1 = false) = true := by
    apply (Option.any_eq_true _ _).mp
    decide
  exact ⟨t, hrun, of_decide_eq_true hfacts⟩

end Store
end OpenRelay
