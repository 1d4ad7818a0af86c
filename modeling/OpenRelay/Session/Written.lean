/-
# What has been written

A replay gives at least the records that the appender has finished
(`holds_written`); it may give one more, whose last byte is on disk already. While
a journal goes on, it only grows (`Onward`); and once the appender has ended, its
parts stay as they are.

Key theorem: `onward_run`.
-/
import OpenRelay.Session.JournalReplay

namespace OpenRelay
namespace Session

open Journal ShadowJournal Pty

/-! ### The appender has ended -/

/-- The thread has stopped; or it has failed, and only repeats that. -/
def Ended (s : ShadowJournal) : Prop :=
  s.isStopped = true ∨ s.appender.pc = .receiving ∧ s.appender.dead.isSome = true

/-- The sequence number of the record that is being appended is not below what is
written. -/
def AppendsNext (s : ShadowJournal) : Prop :=
  ∀ event todo result, s.appender.pc = .working (.append event) todo result → s.appender.lastWritten ≤ event.seq

/-- How a journal goes on: it grows, and what an ended appender has left stays. -/
structure Grows (s t : ShadowJournal) : Prop where
  incarnation : t.core.incarnation = s.core.incarnation
  published : s.published <+: t.published
  written : s.appender.lastWritten ≤ t.appender.lastWritten
  ended : Ended s → Ended t ∧ t.disk = s.disk

theorem isStopped_iff {s : ShadowJournal} : s.isStopped = true ↔ s.appender.pc = .stopped := by
  unfold isStopped
  rcases s.appender.pc with _ | ⟨task, todo, result⟩ | _ <;> simp

theorem Ended.congr {s t : ShadowJournal} (h : Ended s) (ha : t.appender = s.appender) : Ended t := by
  rw [Ended, isStopped, ha]
  exact h

/-- An ended appender has no task. -/
theorem Ended.idle {s : ShadowJournal} (h : Ended s) {task : Task} {todo : List Effect}
    {result : Except JournalError RollingSegmentWriter} : s.appender.pc ≠ .working task todo result := by
  rcases h with hstop | ⟨hpc, -⟩
  · rw [isStopped_iff.mp hstop]
    nofun
  · rw [hpc]
    nofun

section Steps

variable {s t : ShadowJournal}

theorem note_incarnation (core : SequencerCore) (ack : JournalAck) :
    (core.note ack).incarnation = core.incarnation := by
  cases ack with
  | journaled seq | durable seq => rfl
  | failed reason =>
    rw [SequencerCore.note, SequencerCore.degrade]
    split <;> rfl

theorem foldl_note_incarnation (acks : List JournalAck) (core : SequencerCore) :
    (acks.foldl SequencerCore.note core).incarnation = core.incarnation := by
  induction acks generalizing core with
  | nil => rfl
  | cons ack acks ih => rw [List.foldl_cons, ih, note_incarnation]

theorem degrade_incarnation (core : SequencerCore) (reason : DegradeReason) :
    (core.degrade reason).incarnation = core.incarnation := by
  rw [SequencerCore.degrade]
  split <;> rfl

theorem publish_incarnation (core : SequencerCore) (kind : RecordKind) (payload : Bytes) (elapsed : ℕ) :
    (core.publish kind payload elapsed).2.incarnation = core.incarnation := by
  rw [SequencerCore.publish]
  simp only
  split <;> rfl

/-- A step of the core's side leaves the appender and the directory. -/
theorem Grows.of_core (hi : t.core.incarnation = s.core.incarnation) (hp : s.published <+: t.published)
    (ha : t.appender = s.appender) (hd : t.disk = s.disk) : Grows s t :=
  ⟨hi, hp, by rw [ha], fun h => ⟨h.congr ha, hd⟩⟩

theorem grows_trySubmit (event : OrderedEvent) : Grows s (s.trySubmit event).1 := by
  unfold trySubmit
  split
  · exact .of_core (degrade_incarnation _ _) List.prefix_rfl rfl rfl
  split
  · exact .of_core (degrade_incarnation _ _) List.prefix_rfl rfl rfl
  split <;> exact .of_core rfl List.prefix_rfl rfl rfl

theorem Grows.trans {u : ShadowJournal} (h : Grows s t) (h' : Grows t u) : Grows s u := by
  refine ⟨h'.incarnation.trans h.incarnation, h.published.trans h'.published, h.written.trans h'.written, fun he => ?_⟩
  obtain ⟨het, hdt⟩ := h.ended he
  obtain ⟨heu, hdu⟩ := h'.ended het
  exact ⟨heu, hdu.trans hdt⟩

theorem grows_record (kind : RecordKind) (payload : Bytes) (elapsed : ℕ) :
    Grows s (s.record kind payload elapsed).1 := by
  have hpoll : Grows s s.pollAcks := .of_core (foldl_note_incarnation _ _) List.prefix_rfl rfl rfl
  unfold record
  simp only
  split
  · exact hpoll
  · refine hpoll.trans (Grows.trans (t := { s.pollAcks with
      core := (s.pollAcks.core.publish kind payload elapsed).2
      published := s.pollAcks.published ++ [(s.pollAcks.core.publish kind payload elapsed).1] }) ?_
      (grows_trySubmit _))
    exact .of_core (publish_incarnation _ _ _ _) (List.prefix_append _ _) rfl rfl

/-- A step of an appender that has not ended. -/
theorem Grows.of_thread (hi : t.core.incarnation = s.core.incarnation) (hp : t.published = s.published)
    (hw : s.appender.lastWritten ≤ t.appender.lastWritten) (hrun : ¬ Ended s) : Grows s t :=
  ⟨hi, by rw [hp], hw, fun h => absurd h hrun⟩

theorem sameCore_grows (h : SameCore s t) (hw : s.appender.lastWritten ≤ t.appender.lastWritten)
    (hended : Ended s → Ended t ∧ t.disk = s.disk) : Grows s t :=
  ⟨by rw [h.core], by rw [h.published], hw, hended⟩

theorem not_ended {task : Task} {todo : List Effect} {result : Except JournalError RollingSegmentWriter}
    (hpc : s.appender.pc = .working task todo result) : ¬ Ended s := fun h => h.idle hpc

theorem not_ended_alive (hpc : s.appender.pc = .receiving) (hdead : s.appender.dead = none) : ¬ Ended s := by
  rintro (hstop | ⟨-, hdead'⟩)
  · rw [isStopped_iff, hpc] at hstop
    cases hstop
  · rw [hdead] at hdead'
    cases hdead'

theorem sealTail_written : s.sealTail.appender.lastWritten = s.appender.lastWritten := by
  unfold sealTail
  split <;> rfl

theorem receive_written (msg : AppenderMsg) : (s.receive msg).appender.lastWritten = s.appender.lastWritten := by
  rcases hdead : s.appender.dead with _ | reason
  · cases msg with
    | sync =>
      simp only [receive, hdead]
      rfl
    | record event =>
      simp only [receive, hdead]
      split <;> rfl
  · cases msg <;> simp only [receive, hdead] <;> rfl

theorem finish_written (hseq : AppendsNext s) {task : Task} {todo : List Effect}
    {result result' : Except JournalError RollingSegmentWriter}
    (hpc : s.appender.pc = .working task todo result) :
    s.appender.lastWritten ≤ (s.finish task result').appender.lastWritten := by
  cases task with
  | append event =>
    rcases result' with error | writer
    · exact le_rfl
    · exact hseq event todo result hpc
  | sync => rcases result' with error | writer <;> exact le_rfl
  | finalSync =>
    rcases result' with error | writer
    · exact (@sealTail_written ((s.setPc .receiving).fail .sync)).ge
    · exact (@sealTail_written s.noteSynced).ge
  | sealTail => rcases result' with error | writer <;> exact le_rfl

/-- **One step of a journal.** -/
theorem grows_step (hseq : AppendsNext s) {action : Journal.Action} (h : Journal.step s action = some t) :
    Grows s t := by
  cases action with
  | record kind payload elapsed =>
    simp only [Journal.step, Runs.guarded] at h
    obtain ⟨-, rfl⟩ := h
    exact grows_record kind payload elapsed
  | retry =>
    simp only [Journal.step] at h
    split at h
    · obtain ⟨⟨t', r⟩, hretry, rfl⟩ := Option.map_eq_some_iff.mp h
      unfold retry at hretry
      split at hretry
      · cases hretry
        exact .of_core (degrade_incarnation _ _) List.prefix_rfl rfl rfl
      · split at hretry
        · cases hretry
          exact .of_core rfl List.prefix_rfl rfl rfl
        · cases hretry
    · cases h
  | stall =>
    simp only [Journal.step, Option.map_eq_some_iff] at h
    obtain ⟨event, -, rfl⟩ := h
    exact .of_core (degrade_incarnation _ _) List.prefix_rfl rfl rfl
  | pollAcks =>
    simp only [Journal.step, Runs.guarded] at h
    obtain ⟨-, rfl⟩ := h
    exact .of_core (foldl_note_incarnation _ _) List.prefix_rfl rfl rfl
  | requestSync =>
    simp only [Journal.step, Runs.guarded] at h
    obtain ⟨-, rfl⟩ := h
    unfold ShadowJournal.requestSync
    split <;> exact .of_core rfl List.prefix_rfl rfl rfl
  | close =>
    simp only [Journal.step, Runs.guarded] at h
    obtain ⟨-, rfl⟩ := h
    exact .of_core rfl List.prefix_rfl rfl rfl
  | receive =>
    simp only [Journal.step] at h
    split at h
    · rename_i msg queue hpc hq
      cases h
      have hcore := sameCore_receive { s with queue := queue } msg
      have hsame : SameCore s ({ s with queue := queue }.receive msg) :=
        ⟨hcore.core, hcore.published, hcore.closed, hcore.waiting, hcore.acks⟩
      refine sameCore_grows hsame (@receive_written { s with queue := queue } msg).ge fun hended => ?_
      -- it has failed, and says so once more
      rcases hended with hstop | ⟨-, hdead⟩
      · rw [isStopped_iff, hpc] at hstop
        cases hstop
      · obtain ⟨reason, hreason⟩ := Option.isSome_iff_exists.mp hdead
        cases msg <;> simp only [receive, hreason]
        · exact ⟨.inr ⟨hpc, hdead⟩, rfl⟩
        · exact ⟨.inr ⟨hpc, hdead⟩, rfl⟩
    · cases h
  | timeout =>
    simp only [Journal.step] at h
    split at h
    · rename_i hpc
      simp only [Runs.guarded] at h
      obtain ⟨hdirty, rfl⟩ := h
      exact .of_thread rfl rfl le_rfl (not_ended_alive hpc (dead_of_dirty hdirty))
    · cases h
  | disconnect =>
    simp only [Journal.step] at h
    split at h
    · rename_i hpc hq
      simp only [Runs.guarded] at h
      obtain ⟨-, rfl⟩ := h
      unfold leaveLoop
      split
      · rename_i hdirty
        exact .of_thread rfl rfl le_rfl (not_ended_alive hpc (dead_of_dirty hdirty))
      · unfold sealTail
        split
        · rename_i halive
          exact .of_thread rfl rfl le_rfl (not_ended_alive hpc (Option.isNone_iff_eq_none.mp halive))
        · exact ⟨rfl, List.prefix_rfl, le_rfl, fun _ => ⟨.inl rfl, rfl⟩⟩
    · cases h
  | effect =>
    simp only [Journal.step] at h
    split at h
    · rename_i hpc
      cases h
      exact .of_thread rfl rfl le_rfl (not_ended hpc)
    · cases h
  | fault n =>
    simp only [Journal.step] at h
    split at h
    · rename_i task e todo result hpc
      cases h
      have hcore := sameCore_finish { s with disk := applyEffects (e.cut n) s.disk } task (.error .io)
      have hwritten := @finish_written { s with disk := applyEffects (e.cut n) s.disk } hseq _ _ _ (.error .io) hpc
      exact .of_thread (by rw [hcore.core]) hcore.published hwritten (not_ended hpc)
    · cases h
  | finish =>
    simp only [Journal.step] at h
    split at h
    · rename_i task result hpc
      cases h
      have hcore := sameCore_finish s task result
      exact .of_thread (by rw [hcore.core]) hcore.published (finish_written hseq hpc) (not_ended hpc)
    · cases h

end Steps

/-! ### With the sweeps beside it -/

/-- How a journal in use goes on: what is on disk of the incarnation stays once the
appender has ended. -/
structure Onward (N : ℕ) (l t : Live) : Prop where
  incarnation : t.journal.core.incarnation = l.journal.core.incarnation
  published : l.journal.published <+: t.journal.published
  written : l.journal.appender.lastWritten ≤ t.journal.appender.lastWritten
  ended : Ended l.journal → Ended t.journal ∧ Agree N t.disk l.disk

section Lives

variable {R : LineReader} {N : ℕ} {base : Dir} {l t u : Live}

theorem Onward.refl (N : ℕ) (l : Live) : Onward N l l := ⟨rfl, List.prefix_rfl, le_rfl, fun h => ⟨h, fun _ => rfl⟩⟩

theorem Onward.trans (h : Onward N l t) (h' : Onward N t u) : Onward N l u := by
  refine ⟨h'.incarnation.trans h.incarnation, h.published.trans h'.published, h.written.trans h'.written, fun he => ?_⟩
  obtain ⟨het, hdt⟩ := h.ended he
  obtain ⟨heu, hdu⟩ := h'.ended het
  exact ⟨heu, fun part => (hdu part).trans (hdt part)⟩

theorem appendsNext_of_inv (h : LiveInv N base l) : AppendsNext l.journal := by
  intro event todo result hpc
  obtain ⟨d, ⟨-, img, hd⟩, -⟩ := h.ghost
  have hp := hd.pc
  have hpc' : (l.journal.onDisk d).appender.pc = .working (.append event) todo result := hpc
  rw [hpc'] at hp
  obtain ⟨-, hseq, -⟩ := hp
  rw [hseq, hd.expected]
  exact Nat.le_succ _

theorem onward_step (h : LiveInv N base l) {action : Live.Action} (hstep : l.step R action = some t) :
    Onward N l t := by
  cases action with
  | journal action =>
    obtain ⟨s, hs, rfl⟩ := Option.map_eq_some_iff.mp hstep
    have hg := grows_step (appendsNext_of_inv h) hs
    refine ⟨hg.incarnation, hg.published, hg.written, fun he => ?_⟩
    obtain ⟨het, hdisk⟩ := hg.ended he
    refine ⟨het, fun part => ?_⟩
    show s.disk.parts.get? ⟨N, part⟩ = l.journal.disk.parts.get? ⟨N, part⟩
    rw [hdisk]
  | startSweep minIncarnation =>
    cases hstep
    exact ⟨rfl, List.prefix_rfl, le_rfl, fun hended => ⟨hended, fun _ => rfl⟩⟩
  | sweepEffect i =>
    rcases hi : l.sweeps[i]? with _ | _ | ⟨e, todo⟩ <;> simp only [Live.step, hi] at hstep
    · cases hstep
    · cases hstep
    · cases hstep
      have he := h.sweeps _ (List.mem_of_getElem? hi) e List.mem_cons_self
      exact ⟨rfl, List.prefix_rfl, le_rfl, fun hended => ⟨hended, agree_sweep (fun _ => rfl) he⟩⟩
  | sweepFault i n =>
    rcases hi : l.sweeps[i]? with _ | _ | ⟨e, todo⟩ <;> simp only [Live.step, hi] at hstep
    · cases hstep
    · cases hstep
    · cases hstep
      have he := h.sweeps _ (List.mem_of_getElem? hi) e List.mem_cons_self
      exact ⟨rfl, List.prefix_rfl, le_rfl, fun hended => ⟨hended, agree_cut (fun _ => rfl) he n⟩⟩

/-- **A run of a journal in use.** -/
theorem onward_run (hbase : ∀ seg ∈ base.listSegments, seg.incarnation ≤ N) :
    ∀ {as : List Live.Action} {l t : Live}, LiveInv N base l → Runs.run (Live.step R) l as = some t →
      LiveInv N base t ∧ Onward N l t
  | [], l, _, h, hrun => by
    cases hrun
    exact ⟨h, .refl N l⟩
  | a :: as, _, _, h, hrun => by
    obtain ⟨m, hm, hrest⟩ := Runs.run_cons hrun
    obtain ⟨ht, hon⟩ := onward_run hbase (liveInv_step hbase h hm) hrest
    exact ⟨ht, (onward_step h hm).trans hon⟩

/-! ### What is finished can be read -/

/-- Two ways to take the same bytes apart: the one that ends in less than a record
is not the shorter one. -/
theorem prefix_of_encodings {rs ps : List Record} {w seq : ℕ} {torn rest : Bytes} (hpre : rs <+: ps)
    (hfits : ∀ r ∈ ps.take w, r.Fits) (htorn : TornAt seq torn)
    (h : encodeAll rs ++ torn = encodeAll (ps.take w) ++ rest) : ps.take w <+: rs := by
  rcases List.prefix_or_prefix_of_prefix (List.take_prefix w ps) hpre with hle | hle
  · exact hle
  obtain ⟨more, hmore⟩ := hle
  rcases more with _ | ⟨r, more⟩
  · rw [← hmore, List.append_nil]
  · -- a whole record would stand in what is torn
    rw [← hmore, encodeAll_append, encodeAll_cons, List.append_assoc, List.append_cancel_left_eq, List.append_assoc] at h
    have hr : r.Fits := hfits r (by rw [← hmore]; exact List.mem_append_right _ List.mem_cons_self)
    have hread := readRecord_tornAt htorn
    rw [h, readRecord_encode hr] at hread
    cases hread

theorem flatten_partFiles (groups : List (List Record)) (current : List Record) (torn : Bytes) :
    (partFiles groups current torn).flatten = encodeAll (groups.flatten ++ current) ++ torn := by
  rw [partFiles, List.flatten_append, ← encodeAll_flatten, encodeAll_append]
  simp

/-- **What is finished can be read.** -/
theorem holds_written (h : LiveInv N base l) :
    ∃ groups current torn, Holds l.disk N groups current torn ∧
      (l.journal.published.map OrderedEvent.record).take l.journal.appender.lastWritten <+: groups.flatten ++ current ∧
      groups.flatten ++ current <+: l.journal.published.map OrderedEvent.record := by
  obtain ⟨groups, current, torn, hholds, hpre⟩ := holds_live h
  obtain ⟨d, ⟨-, img, hd⟩, hagree⟩ := h.ghost
  have hfiles : partFiles groups current torn = partFiles img.rotated img.current img.torn := by
    refine List.ext_getElem? fun i => ?_
    rw [← hholds.files i, hagree.partData]
    exact hd.shape.partData_files i
  have hbytes := congrArg List.flatten hfiles
  rw [flatten_partFiles, flatten_partFiles, ← Image.records, hd.records] at hbytes
  refine ⟨groups, current, torn, hholds, ?_, hpre⟩
  exact prefix_of_encodings hpre (fun r hr => hd.fits r (by rw [hd.records]; exact hr)) hholds.torn hbytes

/-- The parts of the incarnation are the same. -/
theorem holds_agree {d d' : Dir} {groups : List (List Record)} {current : List Record} {torn : Bytes}
    (h : Holds d N groups current torn) (hagree : Agree N d' d) : Holds d' N groups current torn :=
  ⟨(hagree.partData 0).trans h.zero, fun i => (hagree.partData (i + 1)).trans (h.files i), h.fits, h.numbered, h.bound,
    h.torn⟩

end Lives

end Session
end OpenRelay
