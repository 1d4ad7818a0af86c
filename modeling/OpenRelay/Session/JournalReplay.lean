/-
# Replaying a session's journal

While a session runs, and after a crash, its directory holds a beginning of the
records that were published, part by part, and perhaps the beginning of one more
(`holds_live`, `holds_crashed`). The records are those of the reader and of the
runtime, so the anchors among them are right; hence every way to replay them
gives the same stream (`anchored_replay`): from an offset on, in windows of any
sizes one after another, and behind whichever anchor.
-/
import OpenRelay.Journal.Available
import OpenRelay.Session.LiveStream

namespace OpenRelay
namespace Session

open Journal Pty

/-! ### What the directory holds -/

section Holding

variable {R : LineReader} {N : ℕ} {base d : Dir} {l : Live}

/-- On the directories of a crash and of its appender alone the incarnation is
the same. -/
theorem holds_crashed_of {d' : Dir} {img : Image} {published : List OrderedEvent}
    (h : Crashed N (freshDir N) published img d') (hagree : ∀ part, d.partData ⟨N, part⟩ = d'.partData ⟨N, part⟩) :
    Holds d N img.rotated img.current img.torn := by
  have hbound := h.bound
  refine ⟨?_, fun i => ?_, h.fits, h.numbered, ?_, ?_⟩
  · rw [hagree]
    exact h.shape.partData_zero
  · rw [hagree, h.shape.partData_files]
    rfl
  · rw [Image.records] at hbound
    omega
  · have htorn := h.torn
    rw [Image.records, Nat.add_comm] at htorn
    exact htorn

/-- **What a crash leaves of a live journal.** -/
theorem holds_crashed (h : LiveInv N base l) (cut : Seg → ℕ) (manifestCut : ℕ) :
    ∃ groups current torn, Holds (l.disk.crash cut manifestCut) N groups current torn ∧
      groups.flatten ++ current <+: l.journal.published.map OrderedEvent.record := by
  obtain ⟨d, hinv, hagree⟩ := h.ghost
  obtain ⟨img, hcrash, -⟩ := hinv.crash (atRest_freshDir N) cut manifestCut
  exact ⟨img.rotated, img.current, img.torn,
    holds_crashed_of hcrash fun part => (hagree.crash cut manifestCut).partData part, hcrash.records⟩

/-- A crash that loses nothing. -/
theorem crash_whole (d : Dir) : ∃ cut : Seg → ℕ, ∀ seg, (d.crash cut 0).partData seg = d.partData seg := by
  refine ⟨fun seg => ((d.parts.get? seg).map fun f => f.pending.length).getD 0, fun seg => ?_⟩
  rw [Dir.crash_partData, Dir.partData]
  rcases d.parts.get? seg with _ | f
  · rfl
  · simp [File.data]

/-- **What a live journal's directory holds.** -/
theorem holds_live (h : LiveInv N base l) :
    ∃ groups current torn, Holds l.disk N groups current torn ∧
      groups.flatten ++ current <+: l.journal.published.map OrderedEvent.record := by
  obtain ⟨d, hinv, hagree⟩ := h.ghost
  obtain ⟨cut, hcut⟩ := crash_whole d
  obtain ⟨img, hcrash, -⟩ := hinv.crash (atRest_freshDir N) cut 0
  refine ⟨img.rotated, img.current, img.torn, holds_crashed_of hcrash fun part => ?_, hcrash.records⟩
  exact (hagree.partData part).trans (hcut ⟨N, part⟩).symm

theorem latest_live (h : LiveInv N base l) (hbase : ∀ seg ∈ base.listSegments, seg.incarnation ≤ N) :
    (listIncarnations l.disk).getLast? = some N := by
  rw [listIncarnations, getLast?_dedup, List.getLast?_map]
  exact h.latest hbase

theorem latest_crashed (h : LiveInv N base l) (hbase : ∀ seg ∈ base.listSegments, seg.incarnation ≤ N)
    (cut : Seg → ℕ) (manifestCut : ℕ) :
    (listIncarnations (l.disk.crash cut manifestCut)).getLast? = some N := by
  rw [listIncarnations, Dir.crash_listSegments, ← listIncarnations]
  exact latest_live h hbase

end Holding

/-- The journal of a session that was spawned on what `open` left, also when its
appender goes on without the session. -/
theorem liveInv_session {R : LineReader} {bare : Bool} {d₀ : Dir} {es : List Effect} {j : OpenedJournal}
    (hopen : (openJournal R).run d₀ = (es, .ok j)) {maxPartBytes rows cols : ℕ} {pid : Bytes} {geometry started : Turn}
    {s₀ s : LiveSession} {as : List LiveSession.Action}
    (hspawn : LiveSession.spawn R (Live.opened j.incarnation maxPartBytes (applyEffects es d₀)) rows cols pid
      geometry started = some s₀)
    (hrun : Runs.run (LiveSession.step bare R) s₀ as = some s) {rest : List Live.Action} {l : Live}
    (hrest : Runs.run (Live.step R) s.rt.journal rest = some l) :
    LiveInv j.incarnation (applyEffects es d₀) l ∧
      ∀ seg ∈ (applyEffects es d₀).listSegments, seg.incarnation ≤ j.incarnation := by
  have hbase := le_of_open hopen
  obtain ⟨-, ⟨bs, hbs⟩, hidle, -⟩ := LiveSession.spawn_spec hspawn ⟨rfl, rfl⟩
  have hstart := (liveInv_of_open hopen maxPartBytes).run hbase hbs
  refine ⟨LiveInv.run (Runs.run_invariant (I := fun s : LiveSession => Idle s.rt.journal.journal ∧
    LiveInv j.incarnation (applyEffects es d₀) s.rt.journal) ?_ hrun ⟨hidle, hstart⟩).2 hbase hrest, hbase⟩
  rintro u a v ⟨huidle, hu⟩ hstep
  have hadv := LiveSession.step_advances hstep huidle
  obtain ⟨cs, hcs⟩ := hadv.run
  exact ⟨hadv.idle, hu.run hbase hcs⟩

/-- **What the directory of a session holds.** A session was spawned on what `open`
left and has gone on, and its appender may have gone on without it, up to the end;
the directory is looked at as it is, or as a crash leaves it. -/
theorem holds_session {R : LineReader} {bare : Bool} {d₀ : Dir} {es : List Effect} {j : OpenedJournal}
    (hopen : (openJournal R).run d₀ = (es, .ok j)) {maxPartBytes rows cols : ℕ} {pid : Bytes} {geometry started : Turn}
    {s₀ s : LiveSession} {as : List LiveSession.Action}
    (hspawn : LiveSession.spawn R (Live.opened j.incarnation maxPartBytes (applyEffects es d₀)) rows cols pid
      geometry started = some s₀)
    (hrun : Runs.run (LiveSession.step bare R) s₀ as = some s) {rest : List Live.Action} {l : Live}
    (hrest : Runs.run (Live.step R) s.rt.journal rest = some l)
    (hpublished : l.journal.published = s.rt.journal.journal.published)
    {d : Dir} (hd : d = l.disk ∨ ∃ cut manifestCut, d = l.disk.crash cut manifestCut) :
    ∃ groups current torn, Holds d j.incarnation groups current torn ∧ groups.flatten ++ current <+: s.rt.records ∧
      (listIncarnations d).getLast? = some j.incarnation ∧ Anchored bare (groups.flatten ++ current) ∧
      (stream bare (groups.flatten ++ current)).length < 2 ^ 64 := by
  obtain ⟨hlive, hbase⟩ := liveInv_session hopen hspawn hrun hrest
  have hstream := streamInv_run hspawn hrun
  obtain ⟨groups, current, torn, hholds, hpre, hlatest⟩ : ∃ groups current torn,
      Holds d j.incarnation groups current torn ∧ groups.flatten ++ current <+: s.rt.records ∧
        (listIncarnations d).getLast? = some j.incarnation := by
    rw [SessionRuntime.records, ← hpublished]
    rcases hd with rfl | ⟨cut, manifestCut, rfl⟩
    · obtain ⟨groups, current, torn, h, hpre⟩ := holds_live hlive
      exact ⟨groups, current, torn, h, hpre, latest_live hlive hbase⟩
    · obtain ⟨groups, current, torn, h, hpre⟩ := holds_crashed hlive cut manifestCut
      exact ⟨groups, current, torn, h, hpre, latest_crashed hlive hbase cut manifestCut⟩
  exact ⟨groups, current, torn, hholds, hpre, hlatest, hstream.synced.anchored.of_prefix hpre,
    ((stream_mono hpre).length_le.trans hstream.synced.counted).trans_lt hstream.synced.bound⟩

/-- Such an incarnation reads. -/
theorem Holds.readIncarnation_eq {d : Dir} {N : ℕ} {groups : List (List Record)} {current : List Record} {torn : Bytes}
    (h : Holds d N groups current torn) (budgets : ℕ → ℕ) :
    readIncarnation d N budgets = .ok (groups.flatten ++ current) := by
  obtain ⟨st, hst, hreads⟩ := h.reads_open
  rw [readIncarnation, hst]
  exact SegmentStream.drain_eq hreads (Nat.lt_succ_of_le (Holds.length_le h))

/-! ### Windows one after another -/

/-- Read a window, and the next ones behind what it gave. -/
def pages (bare : Bool) (d : Dir) : ℕ → List ℕ → Except JournalError Bytes
  | _, [] => .ok []
  | offset, n :: ns =>
    match filteredStreamWindow bare d offset n with
    | .error e => .error e
    | .ok window => (pages bare d (offset + window.length) ns).map fun rest => window ++ rest

/-- The windows are the stream cut into pieces. -/
theorem pages_eq {bare : Bool} {d : Dir} {S : Bytes}
    (h : ∀ offset n, filteredStreamWindow bare d offset n = .ok ((S.drop offset).take n)) :
    ∀ {ns : List ℕ} {offset : ℕ}, pages bare d offset ns = .ok ((S.drop offset).take ns.sum)
  | [], offset => by
    rw [pages, List.sum_nil, List.take_zero]
  | n :: ns, offset => by
    simp only [pages, h, pages_eq h, Except.map]
    congr 1
    rw [List.sum_cons, List.take_add, List.length_take, List.length_drop, ← List.drop_drop]
    congr 1
    by_cases hn : n ≤ S.length - offset
    · rw [Nat.min_eq_left hn]
    · -- the window reached the end, so nothing is left
      have hend : ∀ k, S.length - offset ≤ k → (S.drop offset).drop k = [] := fun k hk =>
        List.drop_eq_nil_of_le (by rw [List.length_drop]; exact hk)
      rw [hend _ (by omega), hend n (by omega)]

/-! ### Every replay -/

/-- **Anchored replay equals full replay.** A session was spawned on what `open`
left and has gone on, and its appender may have gone on without it, up to the
end; the directory is read as it is, or as a crash leaves it. The incarnation reads as a
beginning of the published records, and with their stream `S`: a replay from an offset gives the rest of `S`, a window that piece of
`S`, and windows of any sizes one after another give `S`; and neither depends on
the anchor. -/
theorem anchored_replay {R : LineReader} {bare : Bool} {d₀ : Dir} {es : List Effect} {j : OpenedJournal}
    (hopen : (openJournal R).run d₀ = (es, .ok j)) {maxPartBytes rows cols : ℕ} {pid : Bytes} {geometry started : Turn}
    {s₀ s : LiveSession} {as : List LiveSession.Action}
    (hspawn : LiveSession.spawn R (Live.opened j.incarnation maxPartBytes (applyEffects es d₀)) rows cols pid
      geometry started = some s₀)
    (hrun : Runs.run (LiveSession.step bare R) s₀ as = some s) {rest : List Live.Action} {l : Live}
    (hrest : Runs.run (Live.step R) s.rt.journal rest = some l)
    (hpublished : l.journal.published = s.rt.journal.journal.published)
    {d : Dir} (hd : d = l.disk ∨ ∃ cut manifestCut, d = l.disk.crash cut manifestCut) :
    ∃ rs, rs <+: s.rt.records ∧ (∀ budgets, readIncarnation d j.incarnation budgets = .ok rs) ∧
      (∀ offset, filteredStreamFrom bare d offset = .ok ((stream bare rs).drop offset, (stream bare rs).length)) ∧
      (∀ offset n, filteredStreamWindow bare d offset n = .ok (((stream bare rs).drop offset).take n)) ∧
      (∀ ns : List ℕ, (stream bare rs).length ≤ ns.sum → pages bare d 0 ns = .ok (stream bare rs)) ∧
      ∀ offset anchor, ValidStart d j.incarnation offset anchor →
        (replayAt d j.incarnation anchor (Replay.feedFrom bare offset) fun _ => false).map
            (fun st => (st.collected, st.filteredPos)) = filteredStreamFrom bare d offset ∧
        ∀ n, (replayAt d j.incarnation anchor (Replay.feedWindow bare offset n)
            fun st => decide (n ≤ st.collected.length)).map Replay.collected = filteredStreamWindow bare d offset n := by
  obtain ⟨groups, current, torn, hholds, hpre, hlatest, hanchored, hlt⟩ :=
    holds_session hopen hspawn hrun hrest hpublished hd
  have hfrom := filteredStreamFrom_eq hlatest hholds hanchored hlt
  have hwindow := filteredStreamWindow_eq hlatest hholds hanchored hlt
  refine ⟨groups.flatten ++ current, hpre, fun budgets => ?_, hfrom, hwindow, fun ns hns => ?_,
    fun offset anchor hvalid => ⟨?_, fun n => ?_⟩⟩
  · exact Holds.readIncarnation_eq hholds budgets
  · rw [pages_eq hwindow, List.drop_zero, List.take_of_length_le hns]
  · rw [hfrom]
    exact replayAt_from hholds hanchored hlt hvalid
  · rw [hwindow]
    exact replayAt_window hholds hanchored hlt hvalid n

/-- A read, and then the appender writes three records. -/
def writtenRun : List LiveSession.Action :=
  helloRun ++ ((List.replicate 3 [.receive, .effect, .effect, .finish]).flatten.map fun action =>
    .background (.journal action))

theorem ok_of_toOption {ε α : Type} {x : Except ε α} {a : α} (h : x.toOption = some a) : x = .ok a := by
  cases x with
  | error e => cases h
  | ok b =>
    cases h
    rfl

/-- The output ends, and then the appender writes the seven records, the checkpoint last. -/
def checkpointedRun : List LiveSession.Action :=
  splitRun ++ ((List.replicate 7 [.receive, .effect, .effect, .finish]).flatten.map fun action =>
    .background (.journal action))

theorem checkpointedRun_steps : ∃ s₀ s,
    LiveSession.spawn exactReader (Live.opened 1 4096 (applyEffects [.createPart ⟨1, 1⟩, .syncDir] Dir.empty)) 24 80
      [55] .quiet .quiet = some s₀ ∧
    Runs.run (LiveSession.step false exactReader) s₀ checkpointedRun = some s ∧
    checkpointAnchors s.rt.journal.disk 1 = .ok [⟨7, 1, 403, 6⟩] := by
  have hrun : ((LiveSession.spawn exactReader (Live.opened 1 4096 (applyEffects [.createPart ⟨1, 1⟩, .syncDir] Dir.empty))
      24 80 [55] .quiet .quiet).bind fun s₀ => Runs.run (LiveSession.step false exactReader) s₀ checkpointedRun).any
      (fun s => decide ((checkpointAnchors s.rt.journal.disk 1).toOption = some [⟨7, 1, 403, 6⟩])) = true := by
    decide +kernel
  obtain ⟨s, hs, hp⟩ := (Option.any_eq_true _ _).mp hrun
  obtain ⟨s₀, hs₀, hs'⟩ := Option.bind_eq_some_iff.mp hs
  exact ⟨s₀, s, hs₀, hs', ok_of_toOption (of_decide_eq_true hp)⟩

theorem anchored_replay_checkpointed : ∃ s₀ s,
    LiveSession.spawn exactReader (Live.opened 1 4096 (applyEffects [.createPart ⟨1, 1⟩, .syncDir] Dir.empty)) 24 80
      [55] .quiet .quiet = some s₀ ∧
    Runs.run (LiveSession.step false exactReader) s₀ checkpointedRun = some s ∧
    ValidStart s.rt.journal.disk 1 6 (some ⟨7, 1, 403, 6⟩) ∧
    ∃ rs, rs <+: s.rt.records ∧ (∀ budgets, readIncarnation s.rt.journal.disk 1 budgets = .ok rs) ∧
      (∀ offset, filteredStreamFrom false s.rt.journal.disk offset =
        .ok ((stream false rs).drop offset, (stream false rs).length)) ∧
      (replayAt s.rt.journal.disk 1 (some ⟨7, 1, 403, 6⟩) (Replay.feedFrom false 6) fun _ => false).map
        (fun st => (st.collected, st.filteredPos)) = filteredStreamFrom false s.rt.journal.disk 6 := by
  obtain ⟨s₀, s, hs₀, hs, hanchors⟩ := checkpointedRun_steps
  have hvalid : ValidStart s.rt.journal.disk 1 6 (some ⟨7, 1, 403, 6⟩) :=
    ⟨_, hanchors, List.mem_singleton_self _, by decide, by decide⟩
  obtain ⟨rs, hpre, hread, hfrom, -, -, hanchored⟩ := anchored_replay open_empty hs₀ hs (Runs.run_nil _) rfl (.inl rfl)
  exact ⟨s₀, s, hs₀, hs, hvalid, rs, hpre, hread, hfrom, (hanchored 6 _ hvalid).1⟩

end Session
end OpenRelay
