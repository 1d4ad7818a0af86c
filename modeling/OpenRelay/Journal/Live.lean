/-
# A session's journal in use

While a session runs, its appender writes the active incarnation; after every
checkpoint a retention sweep may run beside it, on a thread of its own, so that
sweeps may also overlap. `Live.step` interleaves them at single effects on the
directory.

The sweeps leave the active incarnation's parts alone, so the appender cannot
tell whether they run: the same run without them takes the same steps on a
directory that agrees on the active incarnation (`step_onDisk`, `liveInv_step`).
What is on disk otherwise has changed by effects of a few kinds (`LiveEffect`).
-/
import OpenRelay.Journal.Recovery
import OpenRelay.Journal.Retention

namespace OpenRelay
namespace Journal

open Image ShadowJournal

/-- A session's journal, and the sweeps that go over its directory beside the appender. -/
structure Live where
  journal : ShadowJournal
  /-- What the sweeps that were started have still to do. -/
  sweeps : List (List Effect)

namespace Live

/-- What may happen next. -/
inductive Action where
  | journal (action : Journal.Action)
  | startSweep (minIncarnation : ℕ)
  /-- The next effect of a sweep succeeds. -/
  | sweepEffect (i : ℕ)
  /-- It fails, after `n` bytes if it is a write, and the sweep ends. -/
  | sweepFault (i n : ℕ)

/-- The journal of a new incarnation, before the first sweep. -/
def opened (incarnation maxPartBytes : ℕ) (disk : Dir) : Live :=
  ⟨ShadowJournal.opened incarnation maxPartBytes disk, []⟩

/-- The directory that the appender and the sweeps share. -/
def disk (l : Live) : Dir := l.journal.disk

/-- The same journal, after a sweep has changed the directory. -/
def onDisk (l : Live) (d : Dir) : Live := { l with journal := { l.journal with disk := d } }

/-- A step of the journal or of a sweep, where it can be taken. -/
def step (R : LineReader) (l : Live) : Action → Option Live
  | .journal action => (Journal.step l.journal action).map fun s => { l with journal := s }
  | .startSweep minIncarnation =>
    some { l with sweeps := l.sweeps ++ [((retainBefore R minIncarnation).run l.disk).1] }
  | .sweepEffect i =>
    match l.sweeps[i]? with
    | some (e :: es) => some { l.onDisk (e.apply l.disk) with sweeps := l.sweeps.set i es }
    | _ => none
  | .sweepFault i n =>
    match l.sweeps[i]? with
    | some (e :: _) => some { l.onDisk (applyEffects (e.cut n) l.disk) with sweeps := l.sweeps.set i [] }
    | _ => none

end Live

/-! ### The appender on another directory -/

/-- What an action does to the directory. -/
def taken (s : ShadowJournal) : Action → List Effect
  | .effect =>
    match s.appender.pc with
    | .working _ (e :: _) _ => [e]
    | _ => []
  | .fault n =>
    match s.appender.pc with
    | .working _ (e :: _) _ => e.cut n
    | _ => []
  | _ => []

namespace ShadowJournal

/-- The same journal, after something else has changed the directory. -/
def onDisk (s : ShadowJournal) (d : Dir) : ShadowJournal := { s with disk := d }

variable (s : ShadowJournal) (d : Dir)

theorem trySubmit_onDisk (event : OrderedEvent) :
    ((s.onDisk d).trySubmit event).1 = (s.trySubmit event).1.onDisk d := by
  by_cases hbudget : defaultQueueBudgetBytes < s.queuedBytes + event.payload.length
  · have hbudget' : defaultQueueBudgetBytes < (s.onDisk d).queuedBytes + event.payload.length := hbudget
    rw [trySubmit, trySubmit, if_pos hbudget', if_pos hbudget]
    rfl
  have hbudget' : ¬ defaultQueueBudgetBytes < (s.onDisk d).queuedBytes + event.payload.length := hbudget
  rw [trySubmit, trySubmit, if_neg hbudget', if_neg hbudget]
  by_cases hstop : s.isStopped = true
  · have hstop' : (s.onDisk d).isStopped = true := hstop
    rw [if_pos hstop', if_pos hstop]
    rfl
  have hstop' : ¬ (s.onDisk d).isStopped = true := hstop
  rw [if_neg hstop', if_neg hstop]
  by_cases hroom : s.queue.length < defaultQueueCapacity
  · have hroom' : (s.onDisk d).queue.length < defaultQueueCapacity := hroom
    rw [if_pos hroom', if_pos hroom]
    rfl
  · have hroom' : ¬ (s.onDisk d).queue.length < defaultQueueCapacity := hroom
    rw [if_neg hroom', if_neg hroom]
    rfl

theorem record_onDisk (kind : RecordKind) (payload : Bytes) (elapsed : ℕ) :
    ((s.onDisk d).record kind payload elapsed).1 = (s.record kind payload elapsed).1.onDisk d := by
  by_cases hdeg : s.pollAcks.core.isDegraded = true
  · have hdeg' : (s.onDisk d).pollAcks.core.isDegraded = true := hdeg
    simp only [record, if_pos hdeg', if_pos hdeg]
    rfl
  · have hdeg' : ¬ (s.onDisk d).pollAcks.core.isDegraded = true := hdeg
    simp only [record, if_neg hdeg', if_neg hdeg]
    exact trySubmit_onDisk { s.pollAcks with
      core := (s.pollAcks.core.publish kind payload elapsed).2
      published := s.pollAcks.published ++ [(s.pollAcks.core.publish kind payload elapsed).1] } d _

theorem retry_onDisk (event : OrderedEvent) :
    ((s.onDisk d).retry event).map Prod.fst = ((s.retry event).map Prod.fst).map (·.onDisk d) := by
  by_cases hstop : s.isStopped = true
  · have hstop' : (s.onDisk d).isStopped = true := hstop
    rw [retry, retry, if_pos hstop', if_pos hstop]
    rfl
  have hstop' : ¬ (s.onDisk d).isStopped = true := hstop
  rw [retry, retry, if_neg hstop', if_neg hstop]
  by_cases hroom : s.queue.length < defaultQueueCapacity
  · have hroom' : (s.onDisk d).queue.length < defaultQueueCapacity := hroom
    rw [if_pos hroom', if_pos hroom]
    rfl
  · have hroom' : ¬ (s.onDisk d).queue.length < defaultQueueCapacity := hroom
    rw [if_neg hroom', if_neg hroom]
    rfl

theorem requestSync_onDisk : (s.onDisk d).requestSync = s.requestSync.onDisk d := by
  by_cases hfull : s.isStopped = true ∨ defaultQueueCapacity ≤ s.queue.length
  · have hfull' : (s.onDisk d).isStopped = true ∨ defaultQueueCapacity ≤ (s.onDisk d).queue.length := hfull
    rw [requestSync, requestSync, if_pos hfull', if_pos hfull]
  · have hfull' : ¬ ((s.onDisk d).isStopped = true ∨ defaultQueueCapacity ≤ (s.onDisk d).queue.length) := hfull
    rw [requestSync, requestSync, if_neg hfull', if_neg hfull]
    rfl

theorem sealTail_onDisk : (s.onDisk d).sealTail = s.sealTail.onDisk d := by
  have hrun : ∀ d', s.appender.writer.sealPart.run d' =
      (s.appender.writer.sealEffects, .ok s.appender.writer.unsealed) := s.appender.writer.sealPart_run
  unfold sealTail start
  simp only [onDisk, hrun]
  split <;> rfl

theorem leaveLoop_onDisk : (s.onDisk d).leaveLoop = s.leaveLoop.onDisk d := by
  unfold leaveLoop
  have hdirty : (s.onDisk d).appender.dirty = s.appender.dirty := rfl
  rw [hdirty]
  split
  · rfl
  · exact sealTail_onDisk s d

theorem finish_onDisk (task : Task) (result : Except JournalError RollingSegmentWriter) :
    (s.onDisk d).finish task result = (s.finish task result).onDisk d := by
  rcases task with event | _ | _ | _ <;> rcases result with error | writer
  case finalSync.error => exact sealTail_onDisk ((s.setPc .receiving).fail .sync) d
  case finalSync.ok => exact sealTail_onDisk s.noteSynced d
  all_goals rfl

/-- A message makes the same task, if a rollover finds its next part missing on
both directories. -/
theorem receive_onDisk (msg : AppenderMsg)
    (h : s.appender.dead = none → s.disk.partData s.appender.writer.rolled.seg = none)
    (h' : s.appender.dead = none → d.partData s.appender.writer.rolled.seg = none) :
    (s.onDisk d).receive msg = (s.receive msg).onDisk d := by
  cases msg with
  | sync =>
    unfold receive
    have hdead : (s.onDisk d).appender.dead = s.appender.dead := rfl
    rw [hdead]
    rcases s.appender.dead with _ | reason <;> rfl
  | record event =>
    rcases hdead : s.appender.dead with _ | reason
    · have hrun := s.appender.writer.appendRecord_run (r := event.record) fun _ => h hdead
      have hrun' := s.appender.writer.appendRecord_run (r := event.record) fun _ => h' hdead
      have hdead' : (s.onDisk d).appender.dead = none := hdead
      by_cases hseq : event.seq = s.appender.expectedSeq
      · have hseq' : event.seq = (s.onDisk d).appender.expectedSeq := hseq
        simp only [receive, hdead, hdead', ← hseq, ← hseq', ne_eq, not_true_eq_false, if_false]
        simp only [start, onDisk, hrun, hrun']
        rfl
      · have hseq' : ¬ event.seq = (s.onDisk d).appender.expectedSeq := hseq
        simp only [receive, hdead, hdead', ne_eq, hseq, hseq', not_false_eq_true, if_true]
        rfl
    · have hdead' : (s.onDisk d).appender.dead = some reason := hdead
      simp only [receive, hdead, hdead']
      rfl

end ShadowJournal

/-- A rollover would find its next part missing. -/
def NextFree (s : ShadowJournal) (d : Dir) : Prop :=
  s.appender.pc = .receiving → s.appender.dead = none → d.partData s.appender.writer.rolled.seg = none

/-- **The appender on another directory.** It takes the same step there, with the
same effects. -/
theorem step_onDisk {s t : ShadowJournal} {action : Action} {d : Dir} (h : step s action = some t)
    (hfree : NextFree s s.disk) (hfree' : NextFree s d) :
    step (s.onDisk d) action = some (t.onDisk (applyEffects (taken s action) d)) := by
  cases action with
  | record kind payload elapsed =>
    simp only [step, Runs.guarded] at h
    obtain ⟨hc, rfl⟩ := h
    have hc' : (s.onDisk d).closed = false ∧ (s.onDisk d).waiting = none ∧ (s.onDisk d).core.nextSeq + 1 < 2 ^ 64 := hc
    rw [step, if_pos hc', record_onDisk]
    rfl
  | retry =>
    rcases hw : s.waiting with _ | event
    · simp only [step, hw] at h
      cases h
    · have hw' : (s.onDisk d).waiting = some event := hw
      simp only [step, hw] at h
      simp only [step, hw', retry_onDisk, h]
      rfl
  | stall =>
    rcases hw : s.waiting with _ | event
    · simp only [step, hw] at h
      cases h
    · have hw' : (s.onDisk d).waiting = some event := hw
      simp only [step, hw, Option.map_some, Option.some.injEq] at h
      subst h
      simp only [step, hw']
      rfl
  | pollAcks =>
    simp only [step, Runs.guarded] at h
    obtain ⟨hc, rfl⟩ := h
    have hc' : (s.onDisk d).closed = false ∧ (s.onDisk d).waiting = none := hc
    rw [step, if_pos hc']
    rfl
  | requestSync =>
    simp only [step, Runs.guarded] at h
    obtain ⟨hc, rfl⟩ := h
    have hc' : (s.onDisk d).closed = false := hc
    rw [step, if_pos hc', requestSync_onDisk]
    rfl
  | close =>
    simp only [step, Runs.guarded] at h
    obtain ⟨hc, rfl⟩ := h
    have hc' : (s.onDisk d).waiting = none := hc
    rw [step, if_pos hc']
    rfl
  | receive =>
    rcases hpc : s.appender.pc with _ | ⟨task, todo, result⟩ | _
    · rcases hq : s.queue with _ | ⟨msg, queue⟩
      · simp only [step, hpc, hq] at h
        cases h
      · have hpc' : (s.onDisk d).appender.pc = .receiving := hpc
        have hq' : (s.onDisk d).queue = msg :: queue := hq
        simp only [step, hpc, hq, Option.some.injEq] at h
        subst h
        simp only [step, hpc', hq', Option.some.injEq]
        exact receive_onDisk { s with queue := queue } d msg (hfree hpc) (hfree' hpc)
    · simp only [step, hpc] at h
      cases h
    · simp only [step, hpc] at h
      cases h
  | timeout =>
    rcases hpc : s.appender.pc with _ | ⟨task, todo, result⟩ | _
    · have hpc' : (s.onDisk d).appender.pc = .receiving := hpc
      simp only [step, hpc, Runs.guarded] at h
      obtain ⟨hdirty, rfl⟩ := h
      have hdirty' : (s.onDisk d).appender.dirty = true := hdirty
      simp only [step, hpc', if_pos hdirty']
      rfl
    · simp only [step, hpc] at h
      cases h
    · simp only [step, hpc] at h
      cases h
  | disconnect =>
    rcases hpc : s.appender.pc with _ | ⟨task, todo, result⟩ | _
    · rcases hq : s.queue with _ | ⟨msg, queue⟩
      · have hpc' : (s.onDisk d).appender.pc = .receiving := hpc
        have hq' : (s.onDisk d).queue = [] := hq
        simp only [step, hpc, hq, Runs.guarded] at h
        obtain ⟨hclosed, rfl⟩ := h
        have hclosed' : (s.onDisk d).closed = true := hclosed
        simp only [step, hpc', hq', if_pos hclosed', leaveLoop_onDisk]
        rfl
      · simp only [step, hpc, hq] at h
        cases h
    · simp only [step, hpc] at h
      cases h
    · simp only [step, hpc] at h
      cases h
  | effect =>
    rcases hpc : s.appender.pc with _ | ⟨task, _ | ⟨e, todo⟩, result⟩ | _
    · simp only [step, hpc] at h
      cases h
    · simp only [step, hpc] at h
      cases h
    · have hpc' : (s.onDisk d).appender.pc = .working task (e :: todo) result := hpc
      simp only [step, hpc, Option.some.injEq] at h
      subst h
      simp only [step, hpc', taken, hpc]
      rfl
    · simp only [step, hpc] at h
      cases h
  | fault n =>
    rcases hpc : s.appender.pc with _ | ⟨task, _ | ⟨e, todo⟩, result⟩ | _
    · simp only [step, hpc] at h
      cases h
    · simp only [step, hpc] at h
      cases h
    · have hpc' : (s.onDisk d).appender.pc = .working task (e :: todo) result := hpc
      simp only [step, hpc, Option.some.injEq] at h
      subst h
      simp only [step, hpc', taken, hpc, Option.some.injEq]
      exact finish_onDisk { s with disk := applyEffects (e.cut n) s.disk } (applyEffects (e.cut n) d) task _
    · simp only [step, hpc] at h
      cases h
  | finish =>
    rcases hpc : s.appender.pc with _ | ⟨task, _ | ⟨e, todo⟩, result⟩ | _
    · simp only [step, hpc] at h
      cases h
    · have hpc' : (s.onDisk d).appender.pc = .working task [] result := hpc
      simp only [step, hpc, Option.some.injEq] at h
      subst h
      simp only [step, hpc', Option.some.injEq]
      exact finish_onDisk s d task result
    · simp only [step, hpc] at h
      cases h
    · simp only [step, hpc] at h
      cases h

/-- What a step does to the directory. -/
theorem step_disk {s t : ShadowJournal} {action : Action} (h : step s action = some t)
    (hfree : NextFree s s.disk) : t.disk = applyEffects (taken s action) s.disk := by
  have hself := step_onDisk h hfree hfree
  rw [show s.onDisk s.disk = s from rfl, h] at hself
  exact congrArg ShadowJournal.disk (Option.some.inj hself)

/-! ### What happens to the directory -/

/-- The lines that are written while incarnation `N` is the active one. -/
def LiveLine (N : ℕ) : ManifestLine → Prop
  | .sealed entry => entry.incarnation = N
  | .retired tombstone => tombstone.retired < N

/-- What is done to the directory while incarnation `N` is the active one. -/
def LiveEffect (N : ℕ) : Effect → Prop
  | .createPart seg | .writePart seg _ | .syncPart seg => seg.incarnation = N
  | .removePart seg => seg.incarnation < N
  | .appendManifest bytes => IsPiece (LiveLine N) bytes
  | .syncManifest | .syncDir => True
  | .setLen _ _ => False

variable {N : ℕ} {d d' base : Dir} {e : Effect}

theorem liveEffect_of_sweep (h : SweepEffect N e) : LiveEffect N e := by
  cases e with
  | appendManifest bytes =>
    obtain ⟨i, hi, rfl⟩ := h
    exact ⟨.retired ⟨i⟩, hi, List.prefix_refl _⟩
  | removePart seg => exact h
  | syncManifest | syncDir => trivial
  | createPart _ | writePart _ _ | syncPart _ | setLen _ _ => exact h.elim

theorem liveEffect_of_allowed {r : Record} {img : Image} (h : Allowed N r img e) : LiveEffect N e := by
  cases e with
  | createPart seg | writePart seg _ | syncPart seg =>
    rw [h.1]
    exact rfl
  | appendManifest bytes => exact ⟨groupLine N img.part img.current, rfl, h.2.2.2.2.2⟩
  | syncManifest | syncDir => trivial
  | setLen _ _ | removePart _ => exact h.elim

theorem liveEffect_cut (h : LiveEffect N e) (n : ℕ) {e' : Effect} (he' : e' ∈ e.cut n) : LiveEffect N e' := by
  cases e with
  | writePart seg bytes =>
    rw [List.mem_singleton.mp he']
    exact h
  | appendManifest bytes =>
    rw [List.mem_singleton.mp he']
    obtain ⟨line, hl, hpre⟩ := h
    exact ⟨line, hl, (List.take_prefix _ _).trans hpre⟩
  | createPart _ | syncPart _ | setLen _ _ | removePart _ | syncManifest | syncDir =>
    exact absurd he' List.not_mem_nil

/-- The appender's effects. -/
theorem liveEffect_taken {s : ShadowJournal} (h : Inv N base s) (action : Action) :
    ∀ e ∈ taken s action, LiveEffect N e := by
  obtain ⟨-, img, hd⟩ := h
  have hnext : ∀ task e todo result, s.appender.pc = .working task (e :: todo) result → LiveEffect N e := by
    intro task e todo result hpc
    have hp := hd.pc
    rw [hpc] at hp
    cases task with
    | append event =>
      obtain ⟨-, -, -, ⟨ha, -⟩, -⟩ := hp
      exact liveEffect_of_allowed ha
    | sync | finalSync =>
      obtain ⟨-, -, -, -, htodo⟩ := hp
      rcases htodo with htodo | ⟨htodo, -⟩ <;> cases htodo
      exact rfl
    | sealTail =>
      obtain ⟨-, -, ⟨r, ha, -⟩, -⟩ := hp
      exact liveEffect_of_allowed ha
  intro e he
  cases action with
  | effect =>
    rcases hpc : s.appender.pc with _ | ⟨task, _ | ⟨e', todo⟩, result⟩ | _ <;> simp only [taken, hpc] at he
    · cases he
    · cases he
    · rw [List.mem_singleton.mp he]
      exact hnext task e' todo result hpc
    · cases he
  | fault n =>
    rcases hpc : s.appender.pc with _ | ⟨task, _ | ⟨e', todo⟩, result⟩ | _ <;> simp only [taken, hpc] at he
    · cases he
    · cases he
    · exact liveEffect_cut (hnext task e' todo result hpc) n he
    · cases he
  | record _ _ _ | retry | stall | pollAcks | requestSync | close | receive | timeout | disconnect | finish =>
    cases he

/-! ### The appender without the sweeps -/

/-- The directories agree on incarnation `N`. -/
def Agree (N : ℕ) (d d' : Dir) : Prop := ∀ part, d.parts.get? ⟨N, part⟩ = d'.parts.get? ⟨N, part⟩

theorem agree_apply (h : Agree N d d') (e : Effect) : Agree N (e.apply d) (e.apply d') := by
  intro part
  have hp := h part
  cases e with
  | createPart seg => rw [Effect.apply, Effect.apply, SortedMap.get?_insert, SortedMap.get?_insert, hp]
  | removePart seg => rw [Effect.apply, Effect.apply, SortedMap.get?_erase, SortedMap.get?_erase, hp]
  | writePart seg _ | syncPart seg | setLen seg _ =>
    rw [Effect.apply, Effect.apply, SortedMap.get?_adjust, SortedMap.get?_adjust, hp]
  | appendManifest _ | syncManifest | syncDir => exact hp

theorem agree_applyEffects : ∀ {es : List Effect} {d d' : Dir}, Agree N d d' →
    Agree N (applyEffects es d) (applyEffects es d')
  | [], _, _, h => h
  | e :: es, _, _, h => by
    rw [applyEffects_cons, applyEffects_cons]
    exact agree_applyEffects (agree_apply h e)

theorem agree_sweep (h : Agree N d d') (he : SweepEffect N e) : Agree N (e.apply d) d' := by
  intro part
  rw [← h part]
  cases e with
  | removePart seg =>
    refine get?_apply_of_ne (fun heq => ?_) d
    cases heq
    exact lt_irrefl _ he
  | appendManifest _ | syncManifest | syncDir => rfl
  | createPart _ | writePart _ _ | syncPart _ | setLen _ _ => exact he.elim

theorem agree_cut (h : Agree N d d') (he : SweepEffect N e) (n : ℕ) :
    Agree N (applyEffects (e.cut n) d) d' := by
  cases e with
  | appendManifest bytes => exact h
  | removePart _ | syncManifest | syncDir => exact h
  | createPart _ | writePart _ _ | syncPart _ | setLen _ _ => exact he.elim

theorem Agree.partData (h : Agree N d d') (part : ℕ) : d.partData ⟨N, part⟩ = d'.partData ⟨N, part⟩ := by
  rw [Dir.partData, h part, Dir.partData]

theorem Agree.crash (h : Agree N d d') (cut : Seg → ℕ) (manifestCut : ℕ) :
    Agree N (d.crash cut manifestCut) (d'.crash cut manifestCut) := by
  intro part
  rw [Dir.crash_get?, Dir.crash_get?, h part]

/-- A directory with nothing but the first part of an incarnation. -/
def freshDir (N : ℕ) : Dir := ⟨SortedMap.empty.insert ⟨N, 1⟩ .empty, none⟩

theorem get?_freshDir (N part : ℕ) :
    (freshDir N).parts.get? ⟨N, part⟩ = if part = 1 then some File.empty else none := by
  rw [freshDir, SortedMap.get?_insert, SortedMap.get?_empty]
  by_cases hp : part = 1
  · rw [if_pos hp, if_pos (by rw [hp])]
  · rw [if_neg hp, if_neg (by simpa using hp)]

theorem atRest_freshDir (N : ℕ) : (freshDir N).AtRest := by
  refine ⟨fun seg file h => ?_, nofun⟩
  rw [freshDir, SortedMap.get?_insert, SortedMap.get?_empty] at h
  split at h
  · cases h
    rfl
  · cases h

theorem shape_freshDir (N : ℕ) : Shape N (freshDir N) .initial (freshDir N) := by
  refine ⟨nofun, ⟨File.empty, ?_, rfl, List.nil_prefix⟩, fun part hp => ?_, fun _ _ => rfl, rfl, fun _ => ?_⟩
  · exact (get?_freshDir N _).trans (if_pos rfl)
  · rw [get?_freshDir, if_neg]
    simp only [Image.part, Image.initial, List.length_nil] at hp
    omega
  · exact List.nil_prefix

/-- A live journal: without its sweeps the appender would be where it is, and the
directory has changed since `base` by effects of the live kinds. -/
structure LiveInv (N : ℕ) (base : Dir) (l : Live) : Prop where
  ghost : ∃ d, Inv N (freshDir N) (l.journal.onDisk d) ∧ Agree N l.disk d
  sweeps : ∀ es ∈ l.sweeps, ∀ e ∈ es, SweepEffect N e
  evolved : ∃ es, (∀ e ∈ es, LiveEffect N e) ∧ l.disk = applyEffects es base

/-- The parts on disk are of the active incarnation, or older. -/
theorem le_of_liveEffects : ∀ {es : List Effect} {d : Dir}, (∀ e ∈ es, LiveEffect N e) →
    (∀ seg ∈ d.listSegments, seg.incarnation ≤ N) →
    ∀ seg ∈ (applyEffects es d).listSegments, seg.incarnation ≤ N
  | [], _, _, h => h
  | e :: es, d, he, h => by
    rw [applyEffects_cons]
    refine le_of_liveEffects (fun e' h' => he e' (List.mem_cons_of_mem _ h')) fun seg hseg => ?_
    by_cases hold : seg ∈ d.listSegments
    · exact h seg hold
    · -- only a creation makes a part
      by_cases hcreate : e = .createPart seg
      · subst hcreate
        exact (he _ List.mem_cons_self).le
      · rw [← partData_eq_none] at hold
        rw [mem_listSegments, partData_apply_none hcreate hold] at hseg
        cases hseg

theorem LiveInv.le {l : Live} (h : LiveInv N base l) (hbase : ∀ seg ∈ base.listSegments, seg.incarnation ≤ N) :
    ∀ seg ∈ l.disk.listSegments, seg.incarnation ≤ N := by
  obtain ⟨es, hes, heq⟩ := h.evolved
  rw [heq]
  exact le_of_liveEffects hes hbase

/-- The active incarnation has its first part. -/
theorem LiveInv.first {l : Live} (h : LiveInv N base l) : ⟨N, 1⟩ ∈ l.disk.listSegments := by
  obtain ⟨d, ⟨-, img, hd⟩, hagree⟩ := h.ghost
  rw [mem_listSegments, Dir.partData, hagree 1, Option.isSome_map]
  exact (hd.shape.get?_isSome_iff 1).mpr ⟨le_rfl, by simp [Image.part]⟩

theorem LiveInv.latest {l : Live} (h : LiveInv N base l)
    (hbase : ∀ seg ∈ base.listSegments, seg.incarnation ≤ N) :
    l.disk.listSegments.getLast?.map Seg.incarnation = some N := by
  have hfirst := h.first
  rcases hlast : l.disk.listSegments.getLast? with _ | seg
  · rw [List.getLast?_eq_none_iff] at hlast
    rw [hlast] at hfirst
    cases hfirst
  · have hle := h.le hbase seg (List.mem_of_getLast? hlast)
    have hge := Seg.le_iff.mp (SortedMap.le_of_last hlast hfirst)
    rw [Option.map_some, Option.some.injEq]
    rcases hge with hge | hge
    · simp only at hge
      omega
    · exact hge.1.symm

theorem nextFree_of_inv {s : ShadowJournal} (h : Inv N base s) : NextFree s s.disk := by
  obtain ⟨-, img, hd⟩ := h
  exact hd.next_free

/-- The writer's next part is one of the active incarnation. -/
theorem rolled_incarnation {s : ShadowJournal} (h : Inv N base s) (hpc : s.appender.pc = .receiving)
    (hdead : s.appender.dead = none) : s.appender.writer.rolled.seg.incarnation = N := by
  obtain ⟨-, img, hd⟩ := h
  have hp := hd.pc
  rw [hpc] at hp
  have ht := (hp hdead).2
  rw [RollingSegmentWriter.seg, RollingSegmentWriter.rolled, RollingSegmentWriter.unsealed]
  split <;> exact ht.incarnation

/-- **One step of a live journal.** -/
theorem liveInv_step {R : LineReader} {l t : Live} {action : Live.Action}
    (hbase : ∀ seg ∈ base.listSegments, seg.incarnation ≤ N) (h : LiveInv N base l)
    (hstep : l.step R action = some t) : LiveInv N base t := by
  obtain ⟨d, hinv, hagree⟩ := h.ghost
  obtain ⟨es, hes, heq⟩ := h.evolved
  have hgrow : ∀ new : List Effect, (∀ e ∈ new, LiveEffect N e) →
      ∃ es, (∀ e ∈ es, LiveEffect N e) ∧ applyEffects new l.disk = applyEffects es base := by
    intro new hnew
    refine ⟨es ++ new, fun e he => ?_, by rw [applyEffects_append, heq]⟩
    exact (List.mem_append.mp he).elim (hes e) (hnew e)
  cases action with
  | journal action =>
    obtain ⟨s, hs, rfl⟩ := Option.map_eq_some_iff.mp hstep
    have hfree' : NextFree l.journal d := nextFree_of_inv hinv
    have hfree : NextFree l.journal l.disk := by
      intro hpc hdead
      have hinc := rolled_incarnation hinv hpc hdead
      rw [show l.journal.appender.writer.rolled.seg = ⟨N, l.journal.appender.writer.rolled.seg.part⟩ from
        Seg.ext hinc rfl, hagree.partData]
      rw [← hinc]
      exact hfree' hpc hdead
    have hghost := inv_step hinv (step_onDisk hs hfree hfree')
    have hdisk := step_disk hs hfree
    have htaken := liveEffect_taken hinv action
    refine ⟨⟨_, hghost, ?_⟩, h.sweeps, ?_⟩
    · rw [Live.disk, hdisk]
      exact agree_applyEffects hagree
    · rw [Live.disk, hdisk]
      exact hgrow _ htaken
  | startSweep minIncarnation =>
    cases hstep
    refine ⟨h.ghost, fun es' hes' => ?_, h.evolved⟩
    rcases List.mem_append.mp hes' with hes' | hes'
    · exact h.sweeps es' hes'
    · rw [List.mem_singleton.mp hes']
      exact retainBefore_effects (h.le hbase) (h.latest hbase)
  | sweepEffect i =>
    rcases hi : l.sweeps[i]? with _ | _ | ⟨e, todo⟩ <;> simp only [Live.step, hi] at hstep
    · cases hstep
    · cases hstep
    · cases hstep
      have hsweep := h.sweeps _ (List.mem_of_getElem? hi)
      have he := hsweep e List.mem_cons_self
      refine ⟨⟨d, hinv, agree_sweep hagree he⟩, fun es' hes' => ?_, hgrow [e] ?_⟩
      · rcases List.mem_or_eq_of_mem_set hes' with hes' | rfl
        · exact h.sweeps es' hes'
        · exact fun e' he' => hsweep e' (List.mem_cons_of_mem _ he')
      · intro e' he'
        rw [List.mem_singleton.mp he']
        exact liveEffect_of_sweep he
  | sweepFault i n =>
    rcases hi : l.sweeps[i]? with _ | _ | ⟨e, todo⟩ <;> simp only [Live.step, hi] at hstep
    · cases hstep
    · cases hstep
    · cases hstep
      have he := h.sweeps _ (List.mem_of_getElem? hi) e List.mem_cons_self
      refine ⟨⟨d, hinv, agree_cut hagree he n⟩, fun es' hes' => ?_, hgrow _ fun e' he' => ?_⟩
      · rcases List.mem_or_eq_of_mem_set hes' with hes' | rfl
        · exact h.sweeps es' hes'
        · nofun
      · exact liveEffect_cut (liveEffect_of_sweep he) n he'

theorem liveInv_opened (hbase : ∀ part, base.parts.get? ⟨N, part⟩ = if part = 1 then some File.empty else none)
    (maxPartBytes : ℕ) : LiveInv N base (Live.opened N maxPartBytes base) := by
  refine ⟨⟨freshDir N, inv_initial (shape_freshDir N) maxPartBytes, fun part => ?_⟩, nofun, [], nofun, rfl⟩
  rw [get?_freshDir]
  exact hbase part

section Opened

variable {R : LineReader} {d : Dir} {es : List Effect} {j : OpenedJournal}

/-- The parts that `open` leaves are of the incarnation it began, or older. -/
theorem le_of_open (hopen : (openJournal R).run d = (es, .ok j)) :
    ∀ seg ∈ (applyEffects es d).listSegments, seg.incarnation ≤ j.incarnation := by
  obtain ⟨lines, -, -, rfl, hN⟩ := openJournal_ok hopen
  intro seg hseg
  rw [hN]
  rcases lt_opened hseg with rfl | hlt
  · exact le_rfl
  · exact hlt.le

theorem liveInv_of_open (hopen : (openJournal R).run d = (es, .ok j)) (maxPartBytes : ℕ) :
    LiveInv j.incarnation (applyEffects es d) (Live.opened j.incarnation maxPartBytes (applyEffects es d)) := by
  obtain ⟨lines, -, -, rfl, hN⟩ := openJournal_ok hopen
  refine liveInv_opened (fun part => ?_) maxPartBytes
  rw [hN]
  exact get?_opened

/-- **A run of a live journal.** -/
theorem LiveInv.run {N : ℕ} {base : Dir} {l t : Live} {actions : List Live.Action} (h : LiveInv N base l)
    (hbase : ∀ seg ∈ base.listSegments, seg.incarnation ≤ N) (hrun : Runs.run (Live.step R) l actions = some t) :
    LiveInv N base t :=
  Runs.run_invariant (fun h hstep => liveInv_step hbase h hstep) hrun h

end Opened

end Journal
end OpenRelay
