/-
# The protocol between the sequencer and the appender

What the appender has written is, at every moment, the published records in
order: the directory has an image of them (`DiskInv`), also while a task is under
way and after a failure. Acknowledgements follow what is on disk (`CoreInv`), so
the core knows no more than that (`is_fully_durable`). A dead appender stays dead
and touches the directory no more (`dead_run`).

Key theorem: `inv_step`.
-/
import OpenRelay.Journal.Appender
import OpenRelay.Journal.ManifestReader

namespace OpenRelay
namespace Journal

open Image ShadowJournal

/-- The event is the one published under its number, and can be read back. -/
structure Known (published : List OrderedEvent) (event : OrderedEvent) : Prop where
  pos : 1 ≤ event.seq
  listed : published[event.seq - 1]? = some event
  fits : event.record.Fits

def AppenderMsg.event? : AppenderMsg → Option OrderedEvent
  | .record event => some event
  | .sync => none

/-- The events on their way to the appender. -/
def ShadowJournal.queued (s : ShadowJournal) : List OrderedEvent :=
  s.queue.filterMap AppenderMsg.event? ++ s.waiting.toList

/-- The number up to which an acknowledgement says that records are synced. -/
def JournalAck.durable? : JournalAck → Option ℕ
  | .durable seq => some seq
  | _ => none

/-- The number up to which it says that they can be read. -/
def JournalAck.journaled? : JournalAck → Option ℕ
  | .journaled seq => some seq
  | _ => none

/-- The syncs that were acknowledged. -/
def ShadowJournal.durables (s : ShadowJournal) : List ℕ := s.sent.filterMap JournalAck.durable?

/-- The numbers up to which the appender has said that records can be read. -/
def ShadowJournal.journaleds (s : ShadowJournal) : List ℕ := s.sent.filterMap JournalAck.journaled?

/-- What the core and the channels know of the appender. -/
structure CoreInv (s : ShadowJournal) : Prop where
  nextSeq : s.core.nextSeq = s.published.length + 1
  nextSeq_lt : s.core.nextSeq < 2 ^ 64
  numbered : s.published.map OrderedEvent.seq = List.range' 1 s.published.length
  known : ∀ event ∈ s.queued, Known s.published event
  seen : ∃ seen, s.sent = seen ++ s.acks
  core : s.core.durableSeq ≤ s.appender.lastDurable
  durables : s.durables.Pairwise (· ≤ ·) ∧ ∀ n ∈ s.durables, n ≤ s.appender.lastDurable
  journaleds : s.journaleds.Pairwise (· < ·) ∧ ∀ n ∈ s.journaleds, n ≤ s.appender.lastWritten

/-- What the thread's task will have done to the image. -/
def TaskInv (N : ℕ) (published : List OrderedEvent) (a : Appender) (img : Image) (todo : List Effect)
    (result : Except JournalError RollingSegmentWriter) : Task → Prop
  | .append event => event.seq = a.expectedSeq ∧ Known published event ∧
      AllAllowed N event.record todo img ∧ img.torn <+: event.record.encode ∧
      ∃ w, result = .ok w ∧ Appended N event.record w (img.afterAll todo)
  | .sync | .finalSync => Settled img ∧ Tracks N a.writer img ∧ result = .ok a.writer ∧
      (todo = [.syncPart ⟨N, img.part⟩] ∨ todo = [] ∧ img.kept = img.current.length)
  | .sealTail => img.torn = [] ∧ (∃ r, AllAllowed N r todo img) ∧
      (∀ e ∈ todo, ∀ seg bytes, e ≠ .writePart seg bytes) ∧ ∃ w, result = .ok w

/-- What holds where the thread is: between messages the directory is settled, and within a task it is on its way.
-/
def PcInv (N : ℕ) (published : List OrderedEvent) (a : Appender) (img : Image) : Pc → Prop
  | .receiving => a.dead = none → Settled img ∧ Tracks N a.writer img
  | .working task todo result => a.dead = none ∧ TaskInv N published a img todo result task
  | .stopped => True

/-- The thread is appending a record. -/
def Appender.appending (a : Appender) : Prop :=
  ∃ event todo result, a.pc = .working (.append event) todo result

/-- What the appender has written is the published records, in order. -/
structure DiskInv (N : ℕ) (base : Dir) (published : List OrderedEvent) (a : Appender) (disk : Dir)
    (img : Image) : Prop where
  shape : Shape N base img disk
  valid : img.Valid N
  records : img.records = (published.map OrderedEvent.record).take a.lastWritten
  written : a.lastWritten ≤ published.length
  expected : a.expectedSeq = a.lastWritten + 1
  durable : a.lastDurable ≤ a.lastWritten
  synced : a.lastDurable ≤ img.synced
  fits : ∀ r ∈ img.records, r.Fits
  torn : img.torn = [] ∨ ∃ event, published[a.lastWritten]? = some event ∧ event.record.Fits ∧
    img.torn <+: event.record.encode ∧ (a.dead.isSome ∨ a.appending)
  pc : PcInv N published a img a.pc

/-- What holds of a journal all along: in memory and on disk. -/
def Inv (N : ℕ) (base : Dir) (s : ShadowJournal) : Prop :=
  CoreInv s ∧ ∃ img, DiskInv N base s.published s.appender s.disk img

variable {N : ℕ} {base disk : Dir} {published : List OrderedEvent} {a : Appender} {img : Image}

/-! ### The core's steps -/

theorem Known.mono {event : OrderedEvent} (h : Known published event) (more : List OrderedEvent) :
    Known (published ++ more) event := by
  refine ⟨h.pos, ?_, h.fits⟩
  have hlt := (List.getElem?_eq_some_iff.mp h.listed).1
  rw [List.getElem?_append_left hlt]
  exact h.listed

/-- Publishing does not concern what is on disk. -/
theorem DiskInv.publish (h : DiskInv N base published a disk img) (event : OrderedEvent) :
    DiskInv N base (published ++ [event]) a disk img := by
  have hpc : ∀ pc, PcInv N published a img pc → PcInv N (published ++ [event]) a img pc := by
    intro pc hp
    cases pc with
    | receiving => exact hp
    | working task todo result =>
      refine ⟨hp.1, ?_⟩
      cases task with
      | append ev =>
        obtain ⟨h1, h2, h3⟩ := hp.2
        exact ⟨h1, h2.mono _, h3⟩
      | sync | finalSync | sealTail => exact hp.2
    | stopped => trivial
  refine ⟨h.shape, h.valid, ?_, ?_, h.expected, h.durable, h.synced, h.fits, ?_, hpc _ h.pc⟩
  · rw [List.map_append, List.take_append_of_le_length (by simpa using h.written)]
    exact h.records
  · rw [List.length_append]
    exact h.written.trans (Nat.le_add_right _ _)
  · refine h.torn.imp_right ?_
    rintro ⟨ev, hev, hrest⟩
    have hlt := (List.getElem?_eq_some_iff.mp hev).1
    exact ⟨ev, by rw [List.getElem?_append_left hlt]; exact hev, hrest⟩

/-! ### The appender's steps -/

/-- The thread turns to something else while no write is unfinished. -/
theorem DiskInv.turnTo (h : DiskInv N base published a disk img) (htorn : img.torn = []) {a' : Appender}
    (hw : a'.lastWritten = a.lastWritten) (hd : a'.lastDurable = a.lastDurable)
    (he : a'.expectedSeq = a.expectedSeq) (hpc : PcInv N published a' img a'.pc) :
    DiskInv N base published a' disk img := by
  refine ⟨h.shape, h.valid, ?_, ?_, ?_, ?_, ?_, h.fits, .inl htorn, hpc⟩
  · rw [hw]; exact h.records
  · rw [hw]; exact h.written
  · rw [he, hw]; exact h.expected
  · rw [hd, hw]; exact h.durable
  · rw [hd]; exact h.synced

/-- The thread dies. -/
theorem DiskInv.die (h : DiskInv N base published a disk img) {a' : Appender}
    (hw : a'.lastWritten = a.lastWritten) (hd : a'.lastDurable = a.lastDurable)
    (he : a'.expectedSeq = a.expectedSeq) (hdead : a'.dead.isSome)
    (hpc : a'.pc = .receiving ∨ a'.pc = .stopped) : DiskInv N base published a' disk img := by
  refine ⟨h.shape, h.valid, ?_, ?_, ?_, ?_, ?_, h.fits, ?_, ?_⟩
  · rw [hw]; exact h.records
  · rw [hw]; exact h.written
  · rw [he, hw]; exact h.expected
  · rw [hd, hw]; exact h.durable
  · rw [hd]; exact h.synced
  · refine h.torn.imp_right ?_
    rintro ⟨ev, hev, hfit, hpre, -⟩
    exact ⟨ev, by rw [hw]; exact hev, hfit, hpre, .inl hdead⟩
  · rcases hpc with hpc | hpc <;> rw [hpc]
    · intro hnone
      rw [hnone] at hdead
      cases hdead
    · trivial

/-- The image goes on by allowed effects of the record being appended, or
without a write. -/
theorem DiskInv.after (h : DiskInv N base published a disk img) {r : Record} {e : Effect}
    (ha : Allowed N r img e) {a' : Appender}
    (hw : a'.lastWritten = a.lastWritten) (hd : a'.lastDurable = a.lastDurable)
    (he : a'.expectedSeq = a.expectedSeq) (hpc : PcInv N published a' (img.after e) a'.pc)
    (htorn : (img.after e).torn = [] ∨ ∃ event, published[a.lastWritten]? = some event ∧
      event.record.Fits ∧ (img.after e).torn <+: event.record.encode ∧ (a'.dead.isSome ∨ a'.appending)) :
    DiskInv N base published a' (e.apply disk) (img.after e) := by
  refine ⟨shape_after h.shape h.valid ha, valid_after h.valid ha, ?_, ?_, ?_, ?_, ?_, ?_, ?_, hpc⟩
  · rw [records_after ha, hw]; exact h.records
  · rw [hw]; exact h.written
  · rw [he, hw]; exact h.expected
  · rw [hd, hw]; exact h.durable
  · rw [hd]; exact h.synced.trans (synced_after h.valid ha)
  · rw [records_after ha]; exact h.fits
  · rw [hw]; exact htorn

/-- A write that failed is a write of fewer bytes. -/
theorem allowed_cut {r : Record} {e : Effect} (ha : Allowed N r img e) (n : ℕ) {e' : Effect}
    (he' : e' ∈ e.cut n) : Allowed N r img e' := by
  cases e with
  | writePart seg bytes =>
    rw [Effect.cut, List.mem_singleton] at he'
    subst he'
    obtain ⟨h1, h2, h3, h4⟩ := ha
    exact ⟨h1, h2, h3, ((List.prefix_append_right_inj _).mpr (List.take_prefix _ _)).trans h4⟩
  | appendManifest bytes =>
    rw [Effect.cut, List.mem_singleton] at he'
    subst he'
    obtain ⟨h1, h2, h3, h4, h5, h6⟩ := ha
    exact ⟨h1, h2, h3, h4, h5, (List.take_prefix _ _).trans h6⟩
  | createPart _ | syncPart _ | setLen _ _ | removePart _ | syncManifest | syncDir =>
    exact absurd he' (List.not_mem_nil)

theorem cut_no_write {e e' : Effect} {n : ℕ} (he' : e' ∈ e.cut n)
    (h : ∀ seg bytes, e ≠ .writePart seg bytes) (seg : Seg) (bytes : Bytes) :
    e' ≠ .writePart seg bytes := by
  cases e with
  | writePart seg bytes => exact absurd rfl (h seg bytes)
  | appendManifest bytes =>
    rw [List.mem_singleton.mp he']
    exact nofun
  | createPart _ | syncPart _ | setLen _ _ | removePart _ | syncManifest | syncDir =>
    exact absurd he' (List.not_mem_nil)

theorem torn_after_of_no_write {e : Effect} (htorn : img.torn = [])
    (h : ∀ seg bytes, e ≠ .writePart seg bytes) : (img.after e).torn = [] := by
  cases e with
  | writePart seg bytes => exact absurd rfl (h seg bytes)
  | createPart _ => rfl
  | syncPart _ | appendManifest _ | syncManifest | setLen _ _ | removePart _ | syncDir => exact htorn

/-- The event being appended is the next one. -/
theorem listed_next {event : OrderedEvent} (h : DiskInv N base published a disk img)
    (hseq : event.seq = a.expectedSeq) (hk : Known published event) :
    published[a.lastWritten]? = some event := by
  have hidx : event.seq - 1 = a.lastWritten := by rw [hseq, h.expected]; omega
  rw [← hidx]
  exact hk.listed

/-- **An effect of the task.** -/
theorem DiskInv.effect (h : DiskInv N base published a disk img) {task : Task} {e : Effect}
    {todo : List Effect} {result : Except JournalError RollingSegmentWriter}
    (hpc : a.pc = .working task (e :: todo) result) :
    ∃ img', DiskInv N base published { a with pc := .working task todo result } (e.apply disk) img' := by
  have hp := h.pc
  rw [hpc] at hp
  obtain ⟨hdead, htask⟩ := hp
  cases task with
  | append event =>
    obtain ⟨hseq, hk, hall, htorn, w, hres, happ⟩ := htask
    obtain ⟨ha, hrest⟩ := hall
    have htorn' := torn_after htorn ha
    refine ⟨img.after e, h.after ha rfl rfl rfl ⟨hdead, hseq, hk, hrest, htorn', w, hres, happ⟩ (.inr ?_)⟩
    exact ⟨event, listed_next h hseq hk, hk.fits, htorn', .inr ⟨event, todo, result, rfl⟩⟩
  | sync | finalSync =>
    obtain ⟨hs, ht, hres, htodo | ⟨htodo, -⟩⟩ := htask
    · cases htodo
      have ha : Allowed N ⟨.output, 0, 0, []⟩ img (.syncPart ⟨N, img.part⟩) := ⟨rfl, hs.torn⟩
      refine ⟨img.after _, h.after ha rfl rfl rfl ?_ (.inl hs.torn)⟩
      refine ⟨hdead, ⟨hs.torn, hs.tornLine, hs.tailSealed⟩, ?_, hres, .inr ⟨rfl, rfl⟩⟩
      exact ⟨ht.incarnation, ht.part, ht.partBytes, ht.partFirstSeq, ht.partLastSeq, ht.partCrc⟩
    · cases htodo
  | sealTail =>
    obtain ⟨htorn, ⟨r, hall⟩, hwrite, hres⟩ := htask
    obtain ⟨ha, hrest⟩ := hall
    have htorn' := torn_after_of_no_write htorn (hwrite e List.mem_cons_self)
    refine ⟨img.after e, h.after ha rfl rfl rfl ?_ (.inl htorn')⟩
    exact ⟨hdead, htorn', ⟨r, hrest⟩, fun e' he' => hwrite e' (List.mem_cons_of_mem _ he'), hres⟩

/-- **A failed effect.** The thread is dead, and the directory has what the
effect still did. -/
theorem DiskInv.fault (h : DiskInv N base published a disk img) {task : Task} {e : Effect}
    {todo : List Effect} {result : Except JournalError RollingSegmentWriter}
    (hpc : a.pc = .working task (e :: todo) result) (n : ℕ) {a' : Appender}
    (hw : a'.lastWritten = a.lastWritten) (hd : a'.lastDurable = a.lastDurable)
    (he : a'.expectedSeq = a.expectedSeq) (hdead : a'.dead.isSome)
    (hpc' : a'.pc = .receiving ∨ a'.pc = .stopped) :
    ∃ img', DiskInv N base published a' (applyEffects (e.cut n) disk) img' := by
  have hp := h.pc
  rw [hpc] at hp
  obtain ⟨-, htask⟩ := hp
  have hpcinv : ∀ img', PcInv N published a' img' a'.pc := by
    intro img'
    rcases hpc' with h' | h' <;> rw [h']
    · intro hnone
      rw [hnone] at hdead
      cases hdead
    · trivial
  rcases hcut : e.cut n with _ | ⟨e', rest⟩
  · exact ⟨img, h.die hw hd he hdead hpc'⟩
  · have hmem : e' ∈ e.cut n := by rw [hcut]; exact List.mem_cons_self
    have hrest : rest = [] := by
      cases e <;> simp_all [Effect.cut]
    rw [hrest]
    cases task with
    | append event =>
      obtain ⟨hseq, hk, hall, htorn, -⟩ := htask
      have ha := allowed_cut hall.1 n hmem
      exact ⟨img.after e', h.after ha hw hd he (hpcinv _)
        (.inr ⟨event, listed_next h hseq hk, hk.fits, torn_after htorn ha, .inl hdead⟩)⟩
    | sync | finalSync =>
      obtain ⟨hs, -, -, htodo | ⟨htodo, -⟩⟩ := htask
      · cases htodo
        cases hcut
      · cases htodo
    | sealTail =>
      obtain ⟨htorn, ⟨r, hall⟩, hwrite, -⟩ := htask
      have ha := allowed_cut hall.1 n hmem
      refine ⟨img.after e', h.after ha hw hd he (hpcinv _) (.inl (torn_after_of_no_write htorn ?_))⟩
      exact cut_no_write hmem (hwrite e List.mem_cons_self)

/-- **A record that was appended.** -/
theorem DiskInv.appended (h : DiskInv N base published a disk img) {event : OrderedEvent}
    {result : Except JournalError RollingSegmentWriter} (hpc : a.pc = .working (.append event) [] result) :
    ∃ w, result = .ok w ∧ event.seq = a.lastWritten + 1 ∧
      DiskInv N base published { a with
        writer := w, lastWritten := event.seq, expectedSeq := a.expectedSeq + 1, pc := .receiving }
        disk (img.finish event.record) := by
  have hp := h.pc
  rw [hpc] at hp
  obtain ⟨hdead, hseq, hk, -, -, w, hres, happ⟩ := hp
  have happ' : Appended N event.record w img := happ
  have hnext := listed_next h hseq hk
  have hseq' : event.seq = a.lastWritten + 1 := hseq.trans h.expected
  have hlt := (List.getElem?_eq_some_iff.mp hnext).1
  have hrec : (img.finish event.record).records = img.records ++ [event.record] := by
    simp [Image.finish, Image.records]
  refine ⟨w, hres, hseq', ?_⟩
  refine ⟨h.shape.finish happ'.torn h.valid.kept happ'.tailSealed, ?_, ?_, ?_, ?_, ?_, h.synced, ?_,
    .inl rfl, ?_⟩
  · refine ⟨h.valid.rotated, ?_, fun hc => ?_, ?_, h.valid.once⟩
    · have := h.valid.kept
      simp only [Image.finish, List.length_append]
      omega
    · rcases hc with hc | hc
      · exact absurd (happ'.tailSealed.symm.trans hc) (by decide)
      · exact absurd happ'.tornLine hc
    · simp only [Image.finish, happ'.tornLine]
      exact List.nil_prefix
  · rw [hrec, h.records, hseq', List.take_add_one]
    simp [hnext]
  · simp only [hseq']
    omega
  · simp only [h.expected, hseq']
  · simp only [hseq']
    exact h.durable.trans (Nat.le_succ _)
  · rw [hrec]
    intro r hr
    rcases List.mem_append.mp hr with hr | hr
    · exact h.fits r hr
    · rw [List.mem_singleton.mp hr]
      exact hk.fits
  · intro _
    exact ⟨⟨rfl, happ'.tornLine, happ'.tailSealed⟩, happ'.tracks⟩

/-- **A completed sync.** Every record that was written is synced: those of the
parts rotated out were synced when these were sealed. -/
theorem DiskInv.synced_all (h : DiskInv N base published a disk img) {task : Task}
    (htask : task = .sync ∨ task = .finalSync) {result : Except JournalError RollingSegmentWriter}
    (hpc : a.pc = .working task [] result) :
    result = .ok a.writer ∧ a.dead = none ∧
      DiskInv N base published { a with lastDurable := a.lastWritten, pc := .receiving } disk img := by
  have hp := h.pc
  rw [hpc] at hp
  have hinv : a.dead = none ∧ Settled img ∧ Tracks N a.writer img ∧ result = .ok a.writer ∧
      img.kept = img.current.length := by
    rcases htask with rfl | rfl <;> obtain ⟨hdead, hs, ht, hres, htodo | ⟨-, hk⟩⟩ := hp
    · cases htodo
    · exact ⟨hdead, hs, ht, hres, hk⟩
    · cases htodo
    · exact ⟨hdead, hs, ht, hres, hk⟩
  obtain ⟨hdead, hs, ht, hres, hk⟩ := hinv
  refine ⟨hres, hdead, h.shape, h.valid, h.records, h.written, h.expected, le_rfl, ?_, h.fits, .inl hs.torn,
    fun _ => ⟨hs, ht⟩⟩
  have hlen : img.records.length = a.lastWritten := by
    rw [h.records, List.length_take, List.length_map, Nat.min_eq_left h.written]
  rw [Image.records, List.length_append] at hlen
  simp only [Image.synced, hk]
  omega

/-- A rollover finds its next part missing. -/
theorem DiskInv.next_free (h : DiskInv N base published a disk img) (hpc : a.pc = .receiving)
    (hdead : a.dead = none) : disk.partData a.writer.rolled.seg = none := by
  have hp := h.pc
  rw [hpc] at hp
  obtain ⟨-, ht⟩ := hp hdead
  have hseg : a.writer.rolled.seg = ⟨N, img.part + 1⟩ := by
    rw [RollingSegmentWriter.seg, RollingSegmentWriter.rolled, RollingSegmentWriter.unsealed, ← ht.part]
    split <;> simp only [ht.incarnation]
  rw [hseg, Dir.partData, h.shape.absent _ (.inr (Nat.lt_succ_self _))]
  rfl

/-- **The thread takes up a task.** -/
theorem DiskInv.start_append (h : DiskInv N base published a disk img) (hpc : a.pc = .receiving)
    (hdead : a.dead = none) {event : OrderedEvent} (hseq : event.seq = a.expectedSeq)
    (hk : Known published event) :
    DiskInv N base published
      { a with pc := (.working (.append event) ((a.writer.appendRecord event.record).run disk).1
          ((a.writer.appendRecord event.record).run disk).2) } disk img := by
  have hp := h.pc
  rw [hpc] at hp
  obtain ⟨hs, ht⟩ := hp hdead
  obtain ⟨hall, happ⟩ := append_allowed ht hs event.record
  rw [RollingSegmentWriter.appendRecord_run _ fun _ => h.next_free hpc hdead]
  refine h.turnTo hs.torn rfl rfl rfl ⟨hdead, hseq, hk, hall, ?_, _, rfl, happ⟩
  rw [hs.torn]
  exact List.nil_prefix

theorem DiskInv.start_sync (h : DiskInv N base published a disk img) (hpc : a.pc = .receiving)
    (hdead : a.dead = none) {task : Task} (htask : task = .sync ∨ task = .finalSync) :
    DiskInv N base published
      { a with pc := .working task [.syncPart a.writer.seg] (.ok a.writer) } disk img := by
  have hp := h.pc
  rw [hpc] at hp
  obtain ⟨hs, ht⟩ := hp hdead
  refine h.turnTo hs.torn rfl rfl rfl ⟨hdead, ?_⟩
  have hinv : Settled img ∧ Tracks N a.writer img ∧ (Except.ok a.writer : Except JournalError _) = .ok a.writer ∧
      ([.syncPart a.writer.seg] = [Effect.syncPart ⟨N, img.part⟩] ∨
        [Effect.syncPart a.writer.seg] = [] ∧ img.kept = img.current.length) :=
    ⟨hs, ht, rfl, .inl (by rw [ht.seg])⟩
  rcases htask with rfl | rfl <;> exact hinv

theorem DiskInv.start_seal (h : DiskInv N base published a disk img) (hpc : a.pc = .receiving)
    (hdead : a.dead = none) :
    DiskInv N base published
      { a with pc := (.working .sealTail (a.writer.sealPart.run disk).1
          (a.writer.sealPart.run disk).2) } disk img := by
  have hp := h.pc
  rw [hpc] at hp
  obtain ⟨hs, ht⟩ := hp hdead
  rw [RollingSegmentWriter.sealPart_run]
  refine h.turnTo hs.torn rfl rfl rfl ⟨hdead, hs.torn, ⟨⟨.output, 0, 0, []⟩, ?_⟩, ?_, _, rfl⟩
  · by_cases hne : img.current = []
    · rw [ht.sealEffects_nil hne]
      trivial
    · exact (seal_allowed ht hs hne _).1
  · intro e he seg bytes
    by_cases hne : img.current = []
    · rw [ht.sealEffects_nil hne] at he
      cases he
    · rw [ht.sealEffects hne] at he
      simp only [List.mem_cons, List.not_mem_nil, or_false] at he
      rcases he with rfl | rfl | rfl | rfl <;> exact nofun

/-! ### Acknowledgements -/

theorem note_nextSeq (core : SequencerCore) (ack : JournalAck) : (core.note ack).nextSeq = core.nextSeq := by
  cases ack with
  | journaled _ | durable _ => rfl
  | failed reason =>
    simp only [SequencerCore.note, SequencerCore.degrade]
    split <;> rfl

theorem degrade_durableSeq (core : SequencerCore) (reason : DegradeReason) :
    (core.degrade reason).durableSeq = core.durableSeq := by
  simp only [SequencerCore.degrade]
  split <;> rfl

theorem degrade_nextSeq (core : SequencerCore) (reason : DegradeReason) :
    (core.degrade reason).nextSeq = core.nextSeq := by
  simp only [SequencerCore.degrade]
  split <;> rfl

theorem foldl_note_nextSeq : ∀ (acks : List JournalAck) (core : SequencerCore),
    (acks.foldl .note core).nextSeq = core.nextSeq
  | [], _ => rfl
  | ack :: acks, core => by rw [List.foldl_cons, foldl_note_nextSeq acks, note_nextSeq]

/-- The core learns of no later sync than the latest that was acknowledged. -/
theorem foldl_note_durableSeq {bound : ℕ} : ∀ {acks : List JournalAck} {core : SequencerCore},
    core.durableSeq ≤ bound → (∀ n, .durable n ∈ acks → n ≤ bound) →
      (acks.foldl .note core).durableSeq ≤ bound
  | [], _, h, _ => h
  | ack :: acks, core, h, hacks => by
    rw [List.foldl_cons]
    refine foldl_note_durableSeq ?_ fun n hn => hacks n (List.mem_cons_of_mem _ hn)
    cases ack with
    | journaled seq => exact h
    | durable seq => exact max_le h (hacks seq List.mem_cons_self)
    | failed reason => rw [SequencerCore.note, degrade_durableSeq]; exact h

variable {s : ShadowJournal}

theorem mem_durables {n : ℕ} : n ∈ s.durables ↔ .durable n ∈ s.sent := by
  simp only [ShadowJournal.durables, List.mem_filterMap]
  constructor
  · rintro ⟨ack, hack, hn⟩
    cases ack with
    | durable seq =>
      cases hn
      exact hack
    | journaled _ | failed _ => cases hn
  · intro h
    exact ⟨_, h, rfl⟩

theorem CoreInv.pollAcks (h : CoreInv s) : CoreInv s.pollAcks := by
  obtain ⟨seen, hseen⟩ := h.seen
  refine ⟨?_, ?_, h.numbered, h.known, ⟨s.sent, by simp [ShadowJournal.pollAcks]⟩, ?_, h.durables, h.journaleds⟩
  · simp only [ShadowJournal.pollAcks, foldl_note_nextSeq]
    exact h.nextSeq
  · simp only [ShadowJournal.pollAcks, foldl_note_nextSeq]
    exact h.nextSeq_lt
  · refine foldl_note_durableSeq h.core fun n hn => h.durables.2 n (mem_durables.mpr ?_)
    rw [hseen]
    exact List.mem_append_right _ hn

/-- What the thread may acknowledge in one step. -/
inductive Sends (a a' : Appender) : List JournalAck → Prop where
  | nothing (hw : a'.lastWritten = a.lastWritten) (hd : a'.lastDurable = a.lastDurable) : Sends a a' []
  | failed (reason : FailReason) (hw : a'.lastWritten = a.lastWritten)
      (hd : a'.lastDurable = a.lastDurable) : Sends a a' [.failed reason]
  | journaled (hw : a'.lastWritten = a.lastWritten + 1) (hd : a'.lastDurable = a.lastDurable) :
      Sends a a' [.journaled a'.lastWritten]
  | durable (hw : a'.lastWritten = a.lastWritten) (hd : a'.lastDurable = a.lastWritten)
      (hle : a.lastDurable ≤ a.lastWritten) : Sends a a' [.durable a.lastWritten]

/-- A step of the thread keeps what the core knows true. -/
theorem CoreInv.thread (h : CoreInv s) {s' : ShadowJournal} {new : List JournalAck}
    (hcore : s'.core = s.core) (hpub : s'.published = s.published)
    (hqueued : ∀ event ∈ s'.queued, event ∈ s.queued) (hsent : s'.sent = s.sent ++ new)
    (hacks : s'.acks = s.acks ++ new) (hnew : Sends s.appender s'.appender new) : CoreInv s' := by
  obtain ⟨seen, hseen⟩ := h.seen
  have hd : s.appender.lastDurable ≤ s'.appender.lastDurable := by
    cases hnew <;> omega
  have hw : s.appender.lastWritten ≤ s'.appender.lastWritten := by
    cases hnew <;> omega
  refine ⟨?_, ?_, ?_, ?_, ⟨seen, ?_⟩, ?_, ?_, ?_⟩
  · rw [hcore, hpub]; exact h.nextSeq
  · rw [hcore]; exact h.nextSeq_lt
  · rw [hpub]; exact h.numbered
  · intro event he
    rw [hpub]
    exact h.known event (hqueued event he)
  · rw [hsent, hacks, hseen, List.append_assoc]
  · rw [hcore]; exact h.core.trans hd
  · have hdur : s'.durables = s.durables ++ new.filterMap JournalAck.durable? := by
      rw [ShadowJournal.durables, hsent, List.filterMap_append]; rfl
    have hold := fun n hn => (h.durables.2 n hn).trans hd
    rw [hdur]
    cases hnew with
    | nothing _ _ | failed _ _ _ | journaled _ _ =>
      simp only [List.filterMap_nil, List.filterMap_cons, JournalAck.durable?, List.append_nil]
      exact ⟨h.durables.1, hold⟩
    | durable hw' hd' hle =>
      have hone : List.filterMap JournalAck.durable? [.durable s.appender.lastWritten] =
          [s.appender.lastWritten] := rfl
      rw [hone]
      refine ⟨List.pairwise_append.mpr ⟨h.durables.1, List.pairwise_singleton _ _, ?_⟩, ?_⟩
      · intro n hn m hm
        rw [List.mem_singleton.mp hm]
        exact (h.durables.2 n hn).trans hle
      · intro n hn
        rcases List.mem_append.mp hn with hn | hn
        · exact hold n hn
        · rw [List.mem_singleton.mp hn, hd']
  · have hjou : s'.journaleds = s.journaleds ++ new.filterMap JournalAck.journaled? := by
      rw [ShadowJournal.journaleds, hsent, List.filterMap_append]; rfl
    have hold := fun n hn => (h.journaleds.2 n hn).trans hw
    rw [hjou]
    cases hnew with
    | nothing _ _ | failed _ _ _ | durable _ _ _ =>
      simp only [List.filterMap_nil, List.filterMap_cons, JournalAck.journaled?, List.append_nil]
      exact ⟨h.journaleds.1, hold⟩
    | journaled hw' hd' =>
      have hone : List.filterMap JournalAck.journaled? [.journaled s'.appender.lastWritten] =
          [s'.appender.lastWritten] := rfl
      rw [hone]
      refine ⟨List.pairwise_append.mpr ⟨h.journaleds.1, List.pairwise_singleton _ _, ?_⟩, ?_⟩
      · intro n hn m hm
        rw [List.mem_singleton.mp hm, hw']
        exact Nat.lt_succ_of_le (h.journaleds.2 n hn)
      · intro n hn
        rcases List.mem_append.mp hn with hn | hn
        · exact hold n hn
        · rw [List.mem_singleton.mp hn]

/-! ### Publishing and submitting -/

theorem publish_core (core : SequencerCore) (kind : RecordKind) (payload : Bytes) (elapsed : ℕ) :
    (core.publish kind payload elapsed).2.nextSeq = core.nextSeq + 1 ∧
      (core.publish kind payload elapsed).2.durableSeq = core.durableSeq := by
  simp only [SequencerCore.publish]
  split <;> exact ⟨rfl, rfl⟩

theorem publish_event (core : SequencerCore) (kind : RecordKind) (payload : Bytes) (elapsed : ℕ) :
    (core.publish kind payload elapsed).1 =
      ⟨core.incarnation, core.nextSeq, elapsed % 2 ^ 64, kind, payload⟩ := rfl

/-- A submission changes the core's state and the queue, nothing else. -/
theorem CoreInv.submit (h : CoreInv s) {s' : ShadowJournal} (hnext : s'.core.nextSeq = s.core.nextSeq)
    (hdur : s'.core.durableSeq = s.core.durableSeq) (hpub : s'.published = s.published)
    (hqueued : ∀ event ∈ s'.queued, event ∈ s.queued ∨ Known s.published event)
    (hsent : s'.sent = s.sent) (hacks : s'.acks = s.acks) (happ : s'.appender = s.appender) : CoreInv s' := by
  refine ⟨?_, ?_, ?_, ?_, ?_, ?_, ?_, ?_⟩
  · rw [hnext, hpub]; exact h.nextSeq
  · rw [hnext]; exact h.nextSeq_lt
  · rw [hpub]; exact h.numbered
  · intro event he
    rw [hpub]
    exact (hqueued event he).elim (h.known event) id
  · rw [hsent, hacks]; exact h.seen
  · rw [hdur, happ]; exact h.core
  · rw [ShadowJournal.durables, hsent, happ]; exact h.durables
  · rw [ShadowJournal.journaleds, hsent, happ]; exact h.journaleds

theorem CoreInv.trySubmit (h : CoreInv s) {event : OrderedEvent} (hpos : 1 ≤ event.seq)
    (hlisted : s.published[event.seq - 1]? = some event) (hseq : event.seq < 2 ^ 64)
    (hms : event.elapsedMs < 2 ^ 64) (hwait : s.waiting = none) : CoreInv (s.trySubmit event).1 := by
  unfold ShadowJournal.trySubmit
  have hknown : ¬ defaultQueueBudgetBytes < s.queuedBytes + event.payload.length →
      Known s.published event := by
    intro hb
    refine ⟨hpos, hlisted, hseq, hms, ?_⟩
    simp only [OrderedEvent.record, maxPayloadLen, defaultQueueBudgetBytes] at hb ⊢
    omega
  split
  · exact h.submit (degrade_nextSeq _ _) (degrade_durableSeq _ _) rfl (fun _ => .inl) rfl rfl rfl
  · rename_i hb
    split
    · exact h.submit (degrade_nextSeq _ _) (degrade_durableSeq _ _) rfl (fun _ => .inl) rfl rfl rfl
    · split
      · refine h.submit rfl rfl rfl (fun ev he => ?_) rfl rfl rfl
        have hq : ev ∈ s.queued ∨ ev = event := by
          simpa [ShadowJournal.queued, hwait, AppenderMsg.event?] using he
        rcases hq with hq | rfl
        · exact .inl hq
        · exact .inr (hknown hb)
      · refine h.submit rfl rfl rfl (fun ev he => ?_) rfl rfl rfl
        have hq : ev ∈ s.queued ∨ ev = event := by
          simpa [ShadowJournal.queued, hwait] using he
        rcases hq with hq | rfl
        · exact .inl hq
        · exact .inr (hknown hb)

theorem trySubmit_frame (s : ShadowJournal) (event : OrderedEvent) :
    (s.trySubmit event).1.published = s.published ∧ (s.trySubmit event).1.appender = s.appender ∧
      (s.trySubmit event).1.disk = s.disk := by
  unfold ShadowJournal.trySubmit
  split
  · exact ⟨rfl, rfl, rfl⟩
  · split
    · exact ⟨rfl, rfl, rfl⟩
    · split <;> exact ⟨rfl, rfl, rfl⟩

theorem Inv.publishAndSubmit (h : Inv N base s) (hwait : s.waiting = none)
    (hlt : s.core.nextSeq + 1 < 2 ^ 64) (kind : RecordKind) (payload : Bytes) (elapsed : ℕ) :
    Inv N base (s.publishAndSubmit kind payload elapsed).1 := by
  obtain ⟨hc, img, hdisk⟩ := h
  obtain ⟨hnext, hdur⟩ := publish_core s.core kind payload elapsed
  have hmid : CoreInv { s with
      core := (s.core.publish kind payload elapsed).2
      published := s.published ++ [(s.core.publish kind payload elapsed).1] } := by
    refine ⟨?_, ?_, ?_, fun event he => (hc.known event he).mono _, hc.seen, ?_, hc.durables, hc.journaleds⟩
    · simp only [hnext, hc.nextSeq, List.length_append, List.length_singleton]
    · simpa only [hnext] using hlt
    · simp only [List.map_append, hc.numbered, List.map_singleton, publish_event, List.length_append,
        List.length_singleton, List.range'_concat, hc.nextSeq, Nat.one_mul, Nat.add_comm 1]
    · simpa only [hdur] using hc.core
  have hpos : 1 ≤ s.core.nextSeq := by
    rw [hc.nextSeq]
    exact Nat.le_add_left _ _
  obtain ⟨h1, h2, h3⟩ := trySubmit_frame { s with
      core := (s.core.publish kind payload elapsed).2
      published := s.published ++ [(s.core.publish kind payload elapsed).1] }
    (s.core.publish kind payload elapsed).1
  refine ⟨hmid.trySubmit ?_ ?_ ?_ ?_ hwait, img, ?_⟩
  · exact hpos
  · simp [publish_event, hc.nextSeq]
  · exact Nat.lt_of_succ_lt hlt
  · exact Nat.mod_lt _ (Nat.two_pow_pos 64)
  · simp only [ShadowJournal.publishAndSubmit]
    rw [h1, h2, h3]
    exact hdisk.publish _

theorem Inv.record (h : Inv N base s) (hwait : s.waiting = none) (hlt : s.core.nextSeq + 1 < 2 ^ 64)
    (kind : RecordKind) (payload : Bytes) (elapsed : ℕ) : Inv N base (s.record kind payload elapsed).1 := by
  have hpoll : Inv N base s.pollAcks := ⟨h.1.pollAcks, h.2⟩
  unfold ShadowJournal.record
  simp only
  split
  · exact hpoll
  · refine hpoll.publishAndSubmit hwait ?_ kind payload elapsed
    simp only [ShadowJournal.pollAcks, foldl_note_nextSeq]
    exact hlt

/-! ### Every step -/

/-- A step of the thread. -/
theorem inv_thread (h : Inv N base s) {s' : ShadowJournal} (new : List JournalAck)
    (hcore : s'.core = s.core) (hpub : s'.published = s.published)
    (hqueued : ∀ event ∈ s'.queued, event ∈ s.queued) (hsent : s'.sent = s.sent ++ new)
    (hacks : s'.acks = s.acks ++ new) (hnew : Sends s.appender s'.appender new)
    (hdisk : ∃ img, DiskInv N base s.published s'.appender s'.disk img) : Inv N base s' := by
  refine ⟨h.1.thread hcore hpub hqueued hsent hacks hnew, ?_⟩
  rw [hpub]
  exact hdisk

theorem mem_queued_tail {msg : AppenderMsg} {queue : List AppenderMsg} (hq : s.queue = msg :: queue)
    {event : OrderedEvent} (he : event ∈ ({ s with queue := queue } : ShadowJournal).queued) :
    event ∈ s.queued := by
  simp only [ShadowJournal.queued, hq] at he ⊢
  rcases List.mem_append.mp he with he | he
  · refine List.mem_append_left _ ?_
    obtain ⟨msg', hmsg, hev⟩ := List.mem_filterMap.mp he
    exact List.mem_filterMap.mpr ⟨msg', List.mem_cons_of_mem _ hmsg, hev⟩
  · exact List.mem_append_right _ he

theorem inv_receive (h : Inv N base s) (hpc : s.appender.pc = .receiving) {msg : AppenderMsg}
    {queue : List AppenderMsg} (hq : s.queue = msg :: queue) :
    Inv N base ({ s with queue := queue }.receive msg) := by
  have hsub : ∀ event ∈ ({ s with queue := queue } : ShadowJournal).queued, event ∈ s.queued :=
    fun _ he => mem_queued_tail hq he
  obtain ⟨hc, img, hdisk⟩ := h
  cases msg with
  | sync =>
    simp only [ShadowJournal.receive]
    split
    · rename_i reason hdead
      exact inv_thread ⟨hc, img, hdisk⟩ [.failed reason] rfl rfl hsub rfl rfl (.failed _ rfl rfl) ⟨img, hdisk⟩
    · rename_i hdead
      exact inv_thread ⟨hc, img, hdisk⟩ [] rfl rfl hsub (List.append_nil _).symm (List.append_nil _).symm
        (.nothing rfl rfl) ⟨img, hdisk.start_sync hpc hdead (.inl rfl)⟩
  | record event =>
    simp only [ShadowJournal.receive]
    split
    · rename_i reason hdead
      exact inv_thread ⟨hc, img, hdisk⟩ [.failed reason] rfl rfl hsub rfl rfl (.failed _ rfl rfl) ⟨img, hdisk⟩
    · rename_i hdead
      split
      · exact inv_thread ⟨hc, img, hdisk⟩ [.failed _] rfl rfl hsub rfl rfl (.failed _ rfl rfl)
          ⟨img, hdisk.die rfl rfl rfl rfl (.inl hpc)⟩
      · rename_i hseq
        have hmem : event ∈ s.queued := by
          simp [ShadowJournal.queued, hq, AppenderMsg.event?]
        exact inv_thread ⟨hc, img, hdisk⟩ [] rfl rfl hsub (List.append_nil _).symm (List.append_nil _).symm
          (.nothing rfl rfl) ⟨img, hdisk.start_append hpc hdead (not_not.mp hseq) (hc.known event hmem)⟩

theorem inv_sealTail (h : Inv N base s) (hpc : s.appender.pc = .receiving) : Inv N base s.sealTail := by
  obtain ⟨hc, img, hdisk⟩ := h
  unfold ShadowJournal.sealTail
  split
  · rename_i hdead
    exact inv_thread ⟨hc, img, hdisk⟩ [] rfl rfl (fun _ => id) (List.append_nil _).symm
      (List.append_nil _).symm (.nothing rfl rfl)
      ⟨img, hdisk.start_seal hpc (Option.isNone_iff_eq_none.mp hdead)⟩
  · rename_i hdead
    have hsome : s.appender.dead.isSome := by
      rw [Option.isSome_iff_ne_none]
      exact fun h0 => hdead (by rw [h0]; rfl)
    exact inv_thread ⟨hc, img, hdisk⟩ [] rfl rfl (fun _ => id) (List.append_nil _).symm
      (List.append_nil _).symm (.nothing rfl rfl) ⟨img, hdisk.die rfl rfl rfl hsome (.inr rfl)⟩

theorem dead_of_dirty {a : Appender} (h : a.dirty = true) : a.dead = none := by
  simp only [Appender.dirty, Bool.and_eq_true, Option.isNone_iff_eq_none] at h
  exact h.1

theorem inv_start_sync (h : Inv N base s) (hpc : s.appender.pc = .receiving)
    (hdead : s.appender.dead = none) {task : Task} (htask : task = .sync ∨ task = .finalSync) :
    Inv N base (s.start task s.syncTask) := by
  obtain ⟨hc, img, hdisk⟩ := h
  exact inv_thread ⟨hc, img, hdisk⟩ [] rfl rfl (fun _ => id) (List.append_nil _).symm
    (List.append_nil _).symm (.nothing rfl rfl) ⟨img, hdisk.start_sync hpc hdead htask⟩

/-- The thread ends a task that failed, whatever the directory is left like. -/
theorem inv_fail (h : Inv N base s) {disk : Dir} {task : Task} {error : JournalError}
    (hdisk : ∀ a' : Appender, a'.lastWritten = s.appender.lastWritten →
      a'.lastDurable = s.appender.lastDurable → a'.expectedSeq = s.appender.expectedSeq →
      a'.dead.isSome → (a'.pc = .receiving ∨ a'.pc = .stopped) →
      ∃ img, DiskInv N base s.published a' disk img) :
    Inv N base ({ s with disk := disk }.finish task (.error error)) := by
  cases task with
  | append event =>
    exact inv_thread h [.failed .append] rfl rfl (fun _ => id) rfl rfl (.failed _ rfl rfl)
      (hdisk _ rfl rfl rfl rfl (.inl rfl))
  | sync =>
    exact inv_thread h [.failed .sync] rfl rfl (fun _ => id) rfl rfl (.failed _ rfl rfl)
      (hdisk _ rfl rfl rfl rfl (.inl rfl))
  | finalSync =>
    exact inv_thread h [.failed .sync] rfl rfl (fun _ => id) rfl rfl (.failed _ rfl rfl)
      (hdisk _ rfl rfl rfl rfl (.inr rfl))
  | sealTail =>
    exact inv_thread h [.failed .sealing] rfl rfl (fun _ => id) rfl rfl (.failed _ rfl rfl)
      (hdisk _ rfl rfl rfl rfl (.inr rfl))

theorem inv_finish (h : Inv N base s) {task : Task} {result : Except JournalError RollingSegmentWriter}
    (hpc : s.appender.pc = .working task [] result) : Inv N base (s.finish task result) := by
  obtain ⟨hc, img, hdisk⟩ := h
  have hsync : task = .sync ∨ task = .finalSync → result = .ok s.appender.writer ∧ Inv N base s.noteSynced := by
    intro htask
    obtain ⟨hres, hdead, hdisk'⟩ := hdisk.synced_all htask hpc
    exact ⟨hres, inv_thread ⟨hc, img, hdisk⟩ [.durable s.appender.lastWritten] rfl rfl (fun _ => id) rfl rfl
      (.durable rfl rfl hdisk.durable) ⟨img, hdisk'⟩⟩
  cases task with
  | append event =>
    obtain ⟨w, rfl, hseq, hdisk'⟩ := hdisk.appended hpc
    exact inv_thread ⟨hc, img, hdisk⟩ [.journaled event.seq] rfl rfl (fun _ => id) rfl rfl
      (.journaled hseq rfl) ⟨_, hdisk'⟩
  | sync =>
    obtain ⟨rfl, hinv⟩ := hsync (.inl rfl)
    exact hinv
  | finalSync =>
    obtain ⟨rfl, hinv⟩ := hsync (.inr rfl)
    exact inv_sealTail hinv rfl
  | sealTail =>
    have hp := hdisk.pc
    rw [hpc] at hp
    obtain ⟨-, htorn, -, -, w, rfl⟩ := hp
    exact inv_thread ⟨hc, img, hdisk⟩ [] rfl rfl (fun _ => id) (List.append_nil _).symm
      (List.append_nil _).symm (.nothing rfl rfl) ⟨img, hdisk.turnTo htorn rfl rfl rfl trivial⟩

/-- A producer gives up waiting. -/
theorem inv_giveUp (h : Inv N base s) (queuedBytes : ℕ) (error : JournalSubmitError) :
    Inv N base ({ s with waiting := none, queuedBytes := queuedBytes }.degrade error) := by
  refine ⟨h.1.submit (degrade_nextSeq _ _) (degrade_durableSeq _ _) rfl (fun ev he => .inl ?_) rfl rfl rfl, h.2⟩
  simp only [ShadowJournal.queued, ShadowJournal.degrade, Option.toList_none, List.append_nil] at he
  exact List.mem_append_left _ he

theorem inv_retry (h : Inv N base s) {event : OrderedEvent} (hwait : s.waiting = some event)
    {t : ShadowJournal} {r : Submission} (hretry : s.retry event = some (t, r)) : Inv N base t := by
  unfold ShadowJournal.retry at hretry
  split at hretry
  · cases hretry
    exact inv_giveUp h _ _
  · split at hretry
    · cases hretry
      refine ⟨h.1.submit rfl rfl rfl (fun ev he => .inl ?_) rfl rfl rfl, h.2⟩
      simpa [ShadowJournal.queued, hwait, AppenderMsg.event?] using he
    · cases hretry

/-- **Every step keeps the protocol.** -/
theorem inv_step (h : Inv N base s) {action : Action} {t : ShadowJournal}
    (hstep : step s action = some t) : Inv N base t := by
  cases action with
  | record kind payload elapsed =>
    simp only [step, Runs.guarded] at hstep
    obtain ⟨⟨-, hwait, hlt⟩, rfl⟩ := hstep
    exact h.record hwait hlt kind payload elapsed
  | retry =>
    simp only [step] at hstep
    split at hstep
    · rename_i event hwait
      obtain ⟨⟨t', r⟩, hretry, rfl⟩ := Option.map_eq_some_iff.mp hstep
      exact inv_retry h hwait hretry
    · cases hstep
  | stall =>
    simp only [step, Option.map_eq_some_iff] at hstep
    obtain ⟨event, hwait, rfl⟩ := hstep
    exact inv_giveUp h _ _
  | pollAcks =>
    simp only [step, Runs.guarded] at hstep
    obtain ⟨-, rfl⟩ := hstep
    exact ⟨h.1.pollAcks, h.2⟩
  | requestSync =>
    simp only [step, Runs.guarded] at hstep
    obtain ⟨-, rfl⟩ := hstep
    unfold ShadowJournal.requestSync
    split
    · exact h
    · refine ⟨h.1.submit rfl rfl rfl (fun event he => .inl ?_) rfl rfl rfl, h.2⟩
      simpa [ShadowJournal.queued, AppenderMsg.event?] using he
  | close =>
    simp only [step, Runs.guarded] at hstep
    obtain ⟨-, rfl⟩ := hstep
    exact ⟨h.1.submit rfl rfl rfl (fun _ => .inl) rfl rfl rfl, h.2⟩
  | receive =>
    simp only [step] at hstep
    split at hstep
    · rename_i msg queue hpc hq
      cases hstep
      exact inv_receive h hpc hq
    · cases hstep
  | timeout =>
    simp only [step] at hstep
    split at hstep
    · rename_i hpc
      simp only [Runs.guarded] at hstep
      obtain ⟨hdirty, rfl⟩ := hstep
      exact inv_start_sync h hpc (dead_of_dirty hdirty) (.inl rfl)
    · cases hstep
  | disconnect =>
    simp only [step] at hstep
    split at hstep
    · rename_i hpc hq
      simp only [Runs.guarded] at hstep
      obtain ⟨-, rfl⟩ := hstep
      unfold ShadowJournal.leaveLoop
      split
      · rename_i hdirty
        exact inv_start_sync h hpc (dead_of_dirty hdirty) (.inr rfl)
      · exact inv_sealTail h hpc
    · cases hstep
  | effect =>
    simp only [step] at hstep
    split at hstep
    · rename_i task e todo result hpc
      cases hstep
      obtain ⟨hc, img, hdisk⟩ := h
      obtain ⟨img', hdisk'⟩ := hdisk.effect hpc
      exact inv_thread ⟨hc, img, hdisk⟩ [] rfl rfl (fun _ => id) (List.append_nil _).symm
        (List.append_nil _).symm (.nothing rfl rfl) ⟨img', hdisk'⟩
    · cases hstep
  | fault n =>
    simp only [step] at hstep
    split at hstep
    · rename_i task e todo result hpc
      cases hstep
      obtain ⟨hc, img, hdisk⟩ := h
      exact inv_fail ⟨hc, img, hdisk⟩ fun a' hw hd he hdead hpc' => hdisk.fault hpc n hw hd he hdead hpc'
    · cases hstep
  | finish =>
    simp only [step] at hstep
    split at hstep
    · rename_i task result hpc
      cases hstep
      exact inv_finish h hpc
    · cases hstep

/-! ### Whole runs -/

/-- A new incarnation has nothing but an empty first part. -/
theorem shape_opened {R : LineReader} {d₀ : Dir} {es : List Effect} {j : OpenedJournal}
    (h : (openJournal R).run d₀ = (es, .ok j)) :
    Shape j.incarnation (applyEffects es d₀) .initial (applyEffects es d₀) := by
  obtain ⟨lines, -, -, rfl, hN⟩ := openJournal_ok h
  rw [hN]
  refine ⟨fun i group hi => ?_, ⟨File.empty, ?_, rfl, List.nil_prefix⟩, fun part hp => ?_, fun _ _ => rfl, ?_,
    fun hbase => ?_⟩
  · cases hi
  · exact (get?_opened).trans (if_pos rfl)
  · refine (get?_opened).trans (if_neg ?_)
    simp only [Image.part, Image.initial, List.length_nil] at hp
    omega
  · simp [Image.initial, Image.listed, groupLines, renderAll]
  · rw [hbase]
    simp [Image.initial, Image.listed, groupLines, renderAll]

theorem valid_initial (N : ℕ) : Image.initial.Valid N := by
  refine ⟨fun group hg => ?_, le_rfl, fun hc => ?_, List.nil_prefix, fun _ => rfl⟩
  · cases hg
  · rcases hc with hc | hc
    · cases hc
    · exact absurd rfl hc

theorem inv_initial (h : Shape N base .initial base) (maxPartBytes : ℕ) :
    Inv N base (opened N maxPartBytes base) := by
  have hone : 1 < 2 ^ 64 := by decide
  refine ⟨⟨rfl, hone, rfl, fun event he => ?_, ⟨[], rfl⟩, le_rfl, ⟨.nil, fun n hn => ?_⟩,
    ⟨.nil, fun n hn => ?_⟩⟩, .initial, h, valid_initial _, rfl, le_rfl, rfl, le_rfl,
    Nat.zero_le _, fun r hr => ?_, .inl rfl, fun _ => ⟨⟨rfl, rfl, rfl⟩, ?_⟩⟩
  · cases he
  · cases hn
  · cases hn
  · cases hr
  · exact ⟨rfl, rfl, rfl, rfl, fun hne => absurd rfl hne, rfl⟩

theorem inv_opened {R : LineReader} {d₀ : Dir} {es : List Effect} {j : OpenedJournal}
    (h : (openJournal R).run d₀ = (es, .ok j)) (maxPartBytes : ℕ) :
    Inv j.incarnation (applyEffects es d₀) (opened j.incarnation maxPartBytes (applyEffects es d₀)) :=
  inv_initial (shape_opened h) maxPartBytes

/-- The records are on disk for good: every crash leaves them. -/
def Synced (disk : Dir) (N : ℕ) (rs : List Record) : Prop :=
  ∀ cut manifestCut, encodeAll rs <+: (disk.crash cut manifestCut).incarnationData N

theorem DiskInv.synced_take (h : DiskInv N base published a disk img) {n : ℕ} (hn : n ≤ a.lastDurable) :
    Synced disk N ((published.map OrderedEvent.record).take n) := by
  intro cut manifestCut
  refine List.IsPrefix.trans ?_ (incarnationData_crash h.shape cut manifestCut)
  have hle : n ≤ img.synced := hn.trans h.synced
  have hwritten : n ≤ a.lastWritten := hn.trans h.durable
  have hrecords : (published.map OrderedEvent.record).take n = img.records.take n := by
    rw [h.records, List.take_take, Nat.min_eq_left hwritten]
  have hkept : img.records.take img.synced = img.rotated.flatten ++ img.current.take img.kept := by
    rw [Image.records, Image.synced, List.take_length_add_append]
  rw [hrecords, ← hkept]
  obtain ⟨more, hmore⟩ : img.records.take n <+: img.records.take img.synced :=
    List.take_prefix_take_left hle
  rw [← hmore, encodeAll_append]
  exact List.prefix_append _ _

/-- What holds between the core, the appender and the directory. -/
structure Orderly (N : ℕ) (s : ShadowJournal) : Prop where
  /-- Events are numbered from 1 on. -/
  numbered : s.published.map OrderedEvent.seq = List.range' 1 s.published.length
  /-- The parts hold the first records in order, then at most a part of the next
  one, which the appender is writing or failed to write. -/
  written : ∃ w torn, w ≤ s.published.length ∧
    s.disk.incarnationData N = encodeAll ((s.published.map OrderedEvent.record).take w) ++ torn ∧
    (torn = [] ∨ ∃ event, s.published[w]? = some event ∧ torn <+: event.record.encode ∧
      (s.appender.dead.isSome ∨ s.appender.appending))
  /-- The core sees the acknowledgements in the order they were sent. -/
  seen : ∃ seen, s.sent = seen ++ s.acks
  journaleds : s.journaleds.Pairwise (· < ·)
  durables : s.durables.Pairwise (· ≤ ·)
  /-- What is acknowledged as durable is synced. -/
  synced : ∀ n, .durable n ∈ s.sent → n ≤ s.published.length ∧
    Synced s.disk N ((s.published.map OrderedEvent.record).take n)
  fullyDurable : s.core.isFullyDurable = true → Synced s.disk N (s.published.map OrderedEvent.record)

theorem orderly_of_inv (h : Inv N base s) : Orderly N s := by
  obtain ⟨hc, img, hdisk⟩ := h
  refine ⟨hc.numbered, ⟨s.appender.lastWritten, img.torn, hdisk.written, ?_, ?_⟩, hc.seen,
    hc.journaleds.1, hc.durables.1, fun n hn => ?_, fun hfull => ?_⟩
  · rw [incarnationData_eq hdisk.shape, hdisk.records]
  · refine hdisk.torn.imp_right ?_
    rintro ⟨event, hev, -, hpre, hwhen⟩
    exact ⟨event, hev, hpre, hwhen⟩
  · have hle := hc.durables.2 n (mem_durables.mpr hn)
    exact ⟨hle.trans (hdisk.durable.trans hdisk.written), hdisk.synced_take hle⟩
  · have hle : s.published.length ≤ s.appender.lastDurable := by
      simp only [SequencerCore.isFullyDurable, Bool.and_eq_true, decide_eq_true_eq] at hfull
      have hcore := hc.core
      have hnext := hc.nextSeq
      omega
    have hall := hdisk.synced_take hle
    rwa [List.take_of_length_le (by simp)] at hall

/-! ### After a failure -/

theorem publishAndSubmit_frame (s : ShadowJournal) (kind : RecordKind) (payload : Bytes) (elapsed : ℕ) :
    (s.publishAndSubmit kind payload elapsed).1.appender = s.appender ∧
      (s.publishAndSubmit kind payload elapsed).1.disk = s.disk ∧
      (s.publishAndSubmit kind payload elapsed).1.sent = s.sent := by
  unfold ShadowJournal.publishAndSubmit ShadowJournal.trySubmit
  simp only
  split
  · exact ⟨rfl, rfl, rfl⟩
  · split
    · exact ⟨rfl, rfl, rfl⟩
    · split <;> exact ⟨rfl, rfl, rfl⟩

theorem record_frame (s : ShadowJournal) (kind : RecordKind) (payload : Bytes) (elapsed : ℕ) :
    (s.record kind payload elapsed).1.appender = s.appender ∧
      (s.record kind payload elapsed).1.disk = s.disk ∧ (s.record kind payload elapsed).1.sent = s.sent := by
  unfold ShadowJournal.record
  simp only
  split
  · exact ⟨rfl, rfl, rfl⟩
  · exact publishAndSubmit_frame s.pollAcks kind payload elapsed

/-- The directory and the acknowledged syncs are as they were, and the appender
is dead. -/
structure Halted (s t : ShadowJournal) : Prop where
  disk : t.disk = s.disk
  dead : t.appender.dead.isSome
  durables : t.durables = s.durables

theorem Halted.of_frame {t : ShadowJournal} (hdead : s.appender.dead.isSome)
    (h : t.appender = s.appender ∧ t.disk = s.disk ∧ t.sent = s.sent) : Halted s t :=
  ⟨h.2.1, by rw [h.1]; exact hdead, by rw [ShadowJournal.durables, h.2.2, ShadowJournal.durables]⟩

theorem Halted.trans {t u : ShadowJournal} (h : Halted s t) (h' : Halted t u) : Halted s u :=
  ⟨h'.disk.trans h.disk, h'.dead, h'.durables.trans h.durables⟩

/-- A dead thread only repeats that it failed. -/
theorem halted_receive {reason : FailReason} (hdead : s.appender.dead = some reason) (msg : AppenderMsg)
    (queue : List AppenderMsg) : Halted s ({ s with queue := queue }.receive msg) := by
  have hsend : ∀ bytes, Halted s ({ s with queue := queue, queuedBytes := bytes }.send (.failed reason)) := by
    intro bytes
    refine ⟨rfl, by rw [Option.isSome_iff_exists]; exact ⟨reason, hdead⟩, ?_⟩
    simp [ShadowJournal.durables, ShadowJournal.send, JournalAck.durable?]
  cases msg with
  | sync =>
    simp only [ShadowJournal.receive, hdead]
    exact hsend _
  | record event =>
    simp only [ShadowJournal.receive, hdead]
    exact hsend _

theorem halted_retry {event : OrderedEvent} {t : ShadowJournal} {r : Submission}
    (hdead : s.appender.dead.isSome) (h : s.retry event = some (t, r)) : Halted s t := by
  unfold ShadowJournal.retry at h
  split at h
  · cases h
    exact .of_frame hdead ⟨rfl, rfl, rfl⟩
  · split at h
    · cases h
      exact .of_frame hdead ⟨rfl, rfl, rfl⟩
    · cases h

theorem halted_step (hinv : Inv N base s) (hdead : s.appender.dead.isSome) {action : Action}
    {t : ShadowJournal} (hstep : step s action = some t) : Halted s t := by
  obtain ⟨reason, hreason⟩ := Option.isSome_iff_exists.mp hdead
  -- a dead thread has no task
  have hidle : ∀ task todo result, s.appender.pc ≠ .working task todo result := by
    obtain ⟨-, img, hdisk⟩ := hinv
    intro task todo result hpc
    have hp := hdisk.pc
    rw [hpc] at hp
    rw [hp.1] at hreason
    cases hreason
  cases action with
  | record kind payload elapsed =>
    simp only [step, Runs.guarded] at hstep
    obtain ⟨-, rfl⟩ := hstep
    exact .of_frame hdead (record_frame s kind payload elapsed)
  | retry =>
    simp only [step] at hstep
    split at hstep
    · obtain ⟨⟨t', r⟩, hretry, rfl⟩ := Option.map_eq_some_iff.mp hstep
      exact halted_retry hdead hretry
    · cases hstep
  | stall =>
    simp only [step, Option.map_eq_some_iff] at hstep
    obtain ⟨event, -, rfl⟩ := hstep
    exact .of_frame hdead ⟨rfl, rfl, rfl⟩
  | pollAcks | close =>
    simp only [step, Runs.guarded] at hstep
    obtain ⟨-, rfl⟩ := hstep
    exact .of_frame hdead ⟨rfl, rfl, rfl⟩
  | requestSync =>
    simp only [step, Runs.guarded] at hstep
    obtain ⟨-, rfl⟩ := hstep
    unfold ShadowJournal.requestSync
    split <;> exact .of_frame hdead ⟨rfl, rfl, rfl⟩
  | receive =>
    simp only [step] at hstep
    split at hstep
    · cases hstep
      exact halted_receive hreason _ _
    · cases hstep
  | timeout =>
    simp only [step] at hstep
    split at hstep
    · simp only [Appender.dirty, hreason, Option.isNone_some, Bool.false_and, Bool.false_eq_true, if_false,
        reduceCtorEq] at hstep
    · cases hstep
  | disconnect =>
    simp only [step] at hstep
    split at hstep
    · simp only [Runs.guarded] at hstep
      obtain ⟨-, rfl⟩ := hstep
      simp only [ShadowJournal.leaveLoop, ShadowJournal.sealTail, Appender.dirty, hreason,
        Option.isNone_some, Bool.false_and, Bool.false_eq_true, if_false]
      exact ⟨rfl, hdead, rfl⟩
    · cases hstep
  | effect | fault _ | finish =>
    simp only [step] at hstep
    split at hstep
    · rename_i hpc
      exact absurd hpc (hidle _ _ _)
    · cases hstep

/-- Whatever happens after a failure, nothing more is written, and no sync is
acknowledged. -/
theorem dead_run (hinv : Inv N base s) (hdead : s.appender.dead.isSome) :
    ∀ {as : List Action} {t : ShadowJournal}, Runs.run step s as = some t → Halted s t := by
  intro as
  induction as generalizing s with
  | nil =>
    intro t h
    cases h
    exact ⟨rfl, hdead, rfl⟩
  | cons action as ih =>
    intro t h
    obtain ⟨u, hstep, hrun⟩ := Runs.run_cons h
    have hone := halted_step hinv hdead hstep
    exact hone.trans (ih (inv_step hinv hstep) hone.dead hrun)

/-- **The protocol of sequencer and appender.** In every state that any
interleaving leads to, the parts hold the published records in order, what is
acknowledged as durable is synced, and so is everything once the core takes it
to be; and once the appender has failed, the directory and the acknowledged
syncs stay as they are. -/
theorem appender_protocol {R : LineReader} {d₀ : Dir} {es : List Effect} {j : OpenedJournal}
    (hopen : (openJournal R).run d₀ = (es, .ok j)) (maxPartBytes : ℕ) {as : List Action}
    {s : ShadowJournal}
    (hrun : Runs.run step (opened j.incarnation maxPartBytes (applyEffects es d₀)) as = some s) :
    Orderly j.incarnation s ∧
      (s.appender.dead.isSome → ∀ bs t, Runs.run step s bs = some t → Halted s t) := by
  have hinv : Inv j.incarnation (applyEffects es d₀) s :=
    Runs.run_invariant (fun h hstep => inv_step h hstep) hrun (inv_opened hopen maxPartBytes)
  exact ⟨orderly_of_inv hinv, fun hdead bs t ht => dead_run hinv hdead ht⟩

/-- A record is written and synced, the next one fails after ten bytes. -/
def failingRun : List Action :=
  [.record .output [104, 105] 7, .receive, .effect, .effect, .finish, .timeout, .effect, .finish, .pollAcks,
    .record .output [33] 9, .receive, .fault 10]

theorem open_empty : (openJournal exactReader).run Dir.empty =
    ([.createPart ⟨1, 1⟩, .syncDir], .ok ⟨1, none⟩) := rfl

theorem appender_protocol_failing : ∃ s,
    Runs.run step (opened 1 100 (applyEffects [.createPart ⟨1, 1⟩, .syncDir] Dir.empty)) failingRun = some s ∧
    .durable 1 ∈ s.sent ∧ s.appender.dead.isSome ∧ Orderly 1 s ∧
    ∀ bs t, Runs.run step s bs = some t → Halted s t := by
  have hrun : (Runs.run step (opened 1 100 (applyEffects [.createPart ⟨1, 1⟩, .syncDir] Dir.empty))
      failingRun).any (fun s => s.sent.contains (.durable 1) && s.appender.dead.isSome) = true := by
    decide +kernel
  obtain ⟨s, hs, hp⟩ := (Option.any_eq_true _ _).mp hrun
  rw [Bool.and_eq_true, List.contains_iff_mem] at hp
  obtain ⟨horderly, hhalted⟩ := appender_protocol open_empty 100 hs
  exact ⟨s, hs, hp.1, hp.2, horderly, hhalted hp.2⟩

end Journal
end OpenRelay
