/-
# Incarnation numbers

Every `open` of a session directory starts a new incarnation; its number is
derived from the parts that are on disk and the tombstones. `Host.step` runs
everything that happens to one directory: `open`, also failing or stopped half
way, live sessions with their sweeps, retention between sessions, and crashes.

`open` removes an empty newest part before it makes the next one. If it stops
between the two, the number is forgotten and returned once more
(`number_returned_twice`). In a run in which no `open` stops there, the numbers
increase, and no number is a tombstoned one (`incarnations_increase`).
-/
import Mathlib.Data.List.Nodup
import OpenRelay.Journal.Available
import OpenRelay.Pump

namespace OpenRelay
namespace Journal

open Image ShadowJournal

/-- Between sessions, or with a session running. -/
inductive Phase where
  | idle (disk : Dir)
  | live (journal : Live)

/-- The directory, whether a session runs or not. -/
def Phase.disk : Phase → Dir
  | .idle d => d
  | .live l => l.disk

/-- A session directory, with the incarnations that `open` has returned. -/
structure Host where
  phase : Phase
  returned : List ℕ

namespace Host

/-- What may happen next. -/
inductive Action where
  /-- `open` runs to its end. -/
  | open (maxPartBytes : ℕ)
  /-- `open` fails or is killed after `k` effects, `n` bytes into the next one. -/
  | openStopped (k n : ℕ)
  | live (action : Live.Action)
  /-- Retention between sessions; it may also be stopped. -/
  | retain (minIncarnation k n : ℕ)
  /-- The session ends. -/
  | stop
  | crash (cut : Seg → ℕ) (manifestCut : ℕ)

/-- No session has been there. -/
def start : Host := ⟨.idle .empty, []⟩

def step (R : LineReader) (s : Host) : Action → Option Host
  | .open maxPartBytes =>
    match s.phase with
    | .idle d =>
      match (openJournal R).run d with
      | (es, .ok j) =>
        some ⟨.live (Live.opened j.incarnation maxPartBytes (applyEffects es d)), s.returned ++ [j.incarnation]⟩
      | (es, .error _) => some ⟨.idle (applyEffects es d), s.returned⟩
    | .live _ => none
  | .openStopped k n =>
    match s.phase with
    | .idle d => some ⟨.idle (applyEffects (stopped ((openJournal R).run d).1 k n) d), s.returned⟩
    | .live _ => none
  | .live action =>
    match s.phase with
    | .idle _ => none
    | .live l => (l.step R action).map fun l' => ⟨.live l', s.returned⟩
  | .retain minIncarnation k n =>
    match s.phase with
    | .idle d => some ⟨.idle (applyEffects (stopped ((retainBefore R minIncarnation).run d).1 k n) d), s.returned⟩
    | .live _ => none
  | .stop =>
    match s.phase with
    | .idle _ => none
    | .live l => some ⟨.idle l.disk, s.returned⟩
  | .crash cut manifestCut => some ⟨.idle (s.phase.disk.crash cut manifestCut), s.returned⟩

end Host

/-- Some part of the newest incarnation, or of a newer one, is left. -/
def KeepsNewest (d d' : Dir) : Prop :=
  ∀ seg ∈ d.listSegments, ∃ seg' ∈ d'.listSegments, seg.incarnation ≤ seg'.incarnation

instance (d d' : Dir) : Decidable (KeepsNewest d d') :=
  inferInstanceAs (Decidable (∀ seg ∈ d.listSegments, ∃ seg' ∈ d'.listSegments, seg.incarnation ≤ seg'.incarnation))

/-- An `open` that stops has not removed the last part of the newest incarnation,
or has made the next one. -/
def NumberKept (R : LineReader) (s : Host) : Host.Action → Prop
  | .openStopped k n =>
    match s.phase with
    | .idle d => KeepsNewest d (applyEffects (stopped ((openJournal R).run d).1 k n) d)
    | .live _ => True
  | _ => True

instance (R : LineReader) : ∀ (s : Host) (action : Host.Action), Decidable (NumberKept R s action)
  | ⟨.idle d, _⟩, .openStopped k n =>
    inferInstanceAs (Decidable (KeepsNewest d (applyEffects (stopped ((openJournal R).run d).1 k n) d)))
  | ⟨.live _, _⟩, .openStopped _ _ => .isTrue trivial
  | _, .open _ | _, .live _ | _, .retain _ _ _ | _, .stop | _, .crash _ _ => .isTrue trivial

/-! ### The bound on the numbers -/

/-- A line with tombstones below `B` only. -/
def Below (B : ℕ) : ManifestLine → Prop
  | .sealed _ => True
  | .retired tombstone => tombstone.retired < B

/-- The manifest's text is made of pieces of such lines. -/
def TextBelow (B : ℕ) (text : Bytes) : Prop :=
  ∃ pieces : List Bytes, (∀ p ∈ pieces, IsPiece (Below B) p) ∧ text = pieces.flatten

section Text

variable {B C : ℕ} {text : Bytes}

theorem textBelow_nil (B : ℕ) : TextBelow B [] := ⟨[], nofun, rfl⟩

theorem TextBelow.mono (h : TextBelow B text) (hle : B ≤ C) : TextBelow C text := by
  obtain ⟨pieces, hp, rfl⟩ := h
  refine ⟨pieces, fun p hmem => ?_, rfl⟩
  obtain ⟨line, hline, hpre⟩ := hp p hmem
  refine ⟨line, ?_, hpre⟩
  cases line with
  | sealed entry => trivial
  | retired tombstone => exact lt_of_lt_of_le hline hle

theorem TextBelow.cut (h : TextBelow B text) {text' : Bytes} (hpre : text' <+: text) : TextBelow B text' := by
  obtain ⟨pieces, hp, rfl⟩ := h
  exact pieces_prefix hp hpre

theorem TextBelow.effects {d : Dir} (h : TextBelow B d.manifestText) {es : List Effect}
    (hes : ∀ bytes, Effect.appendManifest bytes ∈ es → IsPiece (Below B) bytes) :
    TextBelow B (applyEffects es d).manifestText := by
  obtain ⟨pieces, hp, heq⟩ := h
  obtain ⟨more, hmore, heq'⟩ := appended_pieces hes
  refine ⟨pieces ++ more, fun p hmem => ?_, ?_⟩
  · exact (List.mem_append.mp hmem).elim (hp p) (hmore p)
  · rw [manifestText_applyEffects, heq, heq', List.flatten_append]

/-- What reads has tombstones below `B` only. -/
theorem TextBelow.retired {R : LineReader} (h : TextBelow B text) {lines : List ManifestLine}
    (hread : readManifestText R text = some lines) {i : ℕ} (hi : i ∈ retiredIn lines) : i < B := by
  obtain ⟨pieces, hp, rfl⟩ := h
  obtain ⟨new, rfl, hnew, -⟩ := read_append_pieces (read_renderAll []) hp hread
  exact hnew _ (retired_mem.mp hi)

end Text

theorem below_of_sealed {B : ℕ} {bytes : Bytes} (h : IsPiece IsSealed bytes) : IsPiece (Below B) bytes := by
  obtain ⟨line, hline, hpre⟩ := h
  cases line with
  | sealed entry => exact ⟨.sealed entry, trivial, hpre⟩
  | retired tombstone => exact hline.elim

theorem below_of_live {N : ℕ} {bytes : Bytes} (h : IsPiece (LiveLine N) bytes) : IsPiece (Below N) bytes := by
  obtain ⟨line, hline, hpre⟩ := h
  cases line with
  | sealed entry => exact ⟨.sealed entry, trivial, hpre⟩
  | retired tombstone => exact ⟨.retired tombstone, hline, hpre⟩

/-- Every number that was returned is at most `B`, every tombstone below it, and a
part on disk shows it. -/
structure Bounded (returned : List ℕ) (d : Dir) (B : ℕ) : Prop where
  returned : ∀ N ∈ returned, N ≤ B
  shown : B = 0 ∨ ∃ seg ∈ d.listSegments, B ≤ seg.incarnation
  text : TextBelow B d.manifestText

/-- The bound, and for a session its number. -/
def PhaseInv (returned : List ℕ) : Phase → Prop
  | .idle d => ∃ B, Bounded returned d B
  | .live l => ∃ N base, returned.getLast? = some N ∧ (∀ N' ∈ returned, N' ≤ N) ∧
      (∀ seg ∈ base.listSegments, seg.incarnation ≤ N) ∧ TextBelow N base.manifestText ∧ LiveInv N base l

/-- What holds of a directory that sessions come and go on: no number is given out again. -/
structure HostInv (s : Host) : Prop where
  increasing : s.returned.Pairwise (· < ·)
  phase : PhaseInv s.returned s.phase

/-! ### One step -/

section Step

variable {R : LineReader} {returned : List ℕ} {d : Dir} {B : ℕ}

/-- The next number is above the bound. -/
theorem Bounded.lt_next (h : Bounded returned d B) {lines : List ManifestLine}
    (hread : readManifestText R d.manifestText = some lines) : B < openedIncarnation d lines := by
  rcases h.shown with rfl | ⟨seg, hseg, hle⟩
  · exact Nat.succ_pos _
  · have hret : seg.incarnation ∉ retiredIn lines :=
      fun hmem => absurd (h.text.retired hread hmem) (not_lt.mpr hle)
    refine lt_of_le_of_lt hle (lt_nextIncarnation ?_)
    rwa [mem_listSegments, partData_retained, if_neg hret, ← mem_listSegments]

/-- `open` that gives up has removed retired parts at most. -/
theorem Bounded.gaveUp (h : Bounded returned d B) {lines : List ManifestLine}
    (hread : readManifestText R d.manifestText = some lines) : Bounded returned (retained d lines) B := by
  refine ⟨h.returned, ?_, by rw [retained_manifestText]; exact h.text⟩
  refine h.shown.imp_right ?_
  rintro ⟨seg, hseg, hle⟩
  have hret : seg.incarnation ∉ retiredIn lines :=
    fun hmem => absurd (h.text.retired hread hmem) (not_lt.mpr hle)
  refine ⟨seg, ?_, hle⟩
  rwa [mem_listSegments, partData_retained, if_neg hret, ← mem_listSegments]

/-- The lines of `open` are about parts, whether it succeeds or not. -/
theorem openJournal_append {bytes : Bytes} (h : Effect.appendManifest bytes ∈ ((openJournal R).run d).1) :
    IsPiece IsSealed bytes := by
  rw [openJournal_eq] at h
  rcases hread : readManifestText R d.manifestText with _ | lines
  · rw [hread] at h
    cases h
  · simp only [hread] at h
    rcases hf : headFault (retained d lines) with _ | seg
    · rw [hf] at h
      exact openEffects_append h
    · rw [hf] at h
      rcases retireEffects_cases h with ⟨seg, -, -, h⟩ | h <;> cases h

theorem Bounded.openStopped (h : Bounded returned d B) {k n : ℕ}
    (hkept : KeepsNewest d (applyEffects (stopped ((openJournal R).run d).1 k n) d)) :
    Bounded returned (applyEffects (stopped ((openJournal R).run d).1 k n) d) B := by
  refine ⟨h.returned, ?_, ?_⟩
  · refine h.shown.imp_right ?_
    rintro ⟨seg, hseg, hle⟩
    obtain ⟨seg', hseg', hle'⟩ := hkept seg hseg
    exact ⟨seg', hseg', hle.trans hle'⟩
  · exact h.text.effects (isPiece_cut (fun _ hmem => below_of_sealed (openJournal_append hmem)) k n)

/-- A sweep that is stopped takes effects of the same kinds. -/
theorem liveEffect_stopped {N : ℕ} {es : List Effect} (h : ∀ e ∈ es, SweepEffect N e) (k n : ℕ) :
    ∀ e ∈ stopped es k n, LiveEffect N e := by
  intro e he
  rcases mem_stopped he with he | ⟨e', he', he⟩
  · exact liveEffect_of_sweep (h e he)
  · exact liveEffect_cut (liveEffect_of_sweep (h e' he')) n he

/-- Retention leaves the parts of the latest incarnation. -/
theorem partData_live {N : ℕ} {seg : Seg} (hseg : N ≤ seg.incarnation) :
    ∀ {es : List Effect} {d : Dir}, (∀ e ∈ es, LiveEffect N e) → seg ∈ d.listSegments →
      seg ∈ (applyEffects es d).listSegments
  | [], _, _, h => h
  | e :: es, d, hes, h => by
    rw [applyEffects_cons]
    refine partData_live hseg (fun e' he' => hes e' (List.mem_cons_of_mem _ he')) ?_
    have he := hes e List.mem_cons_self
    by_cases hpart : e.part? = some seg
    · rw [mem_listSegments] at h ⊢
      cases e with
      | createPart seg' =>
        cases hpart
        rw [partData_createPart]
        rfl
      | writePart seg' bytes =>
        cases hpart
        rwa [partData_writePart, Option.isSome_map]
      | syncPart seg' => rwa [partData_syncPart]
      | setLen seg' n => exact he.elim
      | removePart seg' =>
        cases hpart
        exact absurd he (not_lt.mpr hseg)
      | appendManifest _ | syncManifest | syncDir => cases hpart
    · rw [mem_listSegments] at h ⊢
      rwa [partData_apply_of_ne hpart]

theorem Bounded.retain (h : Bounded returned d B) (minIncarnation k n : ℕ) :
    ∃ B', Bounded returned (applyEffects (stopped ((retainBefore R minIncarnation).run d).1 k n) d) B' := by
  rcases hlast : d.listSegments.getLast? with _ | seg
  · -- without parts there is no checkpoint
    have hnil : d.listSegments = [] := List.getLast?_eq_none_iff.mp hlast
    have hrun : ((retainBefore R minIncarnation).run d).1 = [] := by
      have hgate : latestCheckpointIncarnation d = none := by
        rw [latestCheckpointIncarnation, listIncarnations, hnil]
        rfl
      rw [retainBefore, Effects.Prog.bind_of_read (Effects.Prog.get_run d), hgate]
      rfl
    have hstop : stopped [] k n = [] := by simp [stopped]
    rw [hrun, hstop]
    exact ⟨B, h⟩
  · have hmem := List.mem_of_getLast? hlast
    have hle : ∀ seg' ∈ d.listSegments, seg'.incarnation ≤ seg.incarnation := by
      intro seg' hseg'
      rcases Seg.le_iff.mp (SortedMap.le_of_last hlast hseg') with hlt | heq
      · exact hlt.le
      · exact heq.1.le
    have hsweep := @retainBefore_effects seg.incarnation R d minIncarnation hle (by rw [hlast]; rfl)
    have hlive := liveEffect_stopped hsweep k n
    have hB : B ≤ seg.incarnation := by
      rcases h.shown with rfl | ⟨seg', hseg', hle'⟩
      · exact Nat.zero_le _
      · exact hle'.trans (hle seg' hseg')
    refine ⟨seg.incarnation, fun N hN => (h.returned N hN).trans hB, .inr ⟨seg, ?_, le_rfl⟩, ?_⟩
    · exact partData_live le_rfl hlive hmem
    · exact (h.text.mono hB).effects fun bytes hb => below_of_live (liveEffect_append hlive bytes hb)

theorem Bounded.crash (h : Bounded returned d B) (cut : Seg → ℕ) (manifestCut : ℕ) :
    Bounded returned (d.crash cut manifestCut) B := by
  refine ⟨h.returned, by rw [Dir.crash_listSegments]; exact h.shown, ?_⟩
  obtain ⟨kept, hkept, hpre⟩ := d.crash_manifestText cut manifestCut
  rw [hkept]
  exact h.text.cut hpre

/-- The directory of a live session is bounded by its number. -/
theorem bounded_live {l : Live} (h : PhaseInv returned (.live l)) : ∃ B, Bounded returned l.disk B := by
  obtain ⟨N, base, -, hle, -, htext, hlive⟩ := h
  obtain ⟨es, hes, heq⟩ := hlive.evolved
  refine ⟨N, hle, .inr ⟨⟨N, 1⟩, hlive.first, le_rfl⟩, ?_⟩
  rw [heq]
  exact htext.effects fun bytes hb => below_of_live (liveEffect_append hes bytes hb)

theorem bounded_disk {phase : Phase} (h : PhaseInv returned phase) : ∃ B, Bounded returned phase.disk B := by
  cases phase with
  | idle d => exact h
  | live l => exact bounded_live h

/-- A successful `open` returns a new number. -/
theorem Bounded.opened (h : Bounded returned d B) {es : List Effect} {j : OpenedJournal}
    (hopen : (openJournal R).run d = (es, .ok j)) (maxPartBytes : ℕ) :
    B < j.incarnation ∧ PhaseInv (returned ++ [j.incarnation])
      (.live (Live.opened j.incarnation maxPartBytes (applyEffects es d))) := by
  have hbase := le_of_open hopen
  have hlive := liveInv_of_open hopen maxPartBytes
  obtain ⟨lines, hread, -, rfl, hN⟩ := openJournal_ok hopen
  have hlt := h.lt_next hread
  rw [← hN] at hlt
  refine ⟨hlt, j.incarnation, applyEffects (openEffects d lines) d, List.getLast?_concat, ?_, ?_, ?_, ?_⟩
  · intro N' hN'
    rcases List.mem_append.mp hN' with hN' | hN'
    · exact (h.returned N' hN').trans hlt.le
    · exact (List.mem_singleton.mp hN').le
  · exact hbase
  · exact (h.text.mono hlt.le).effects fun _ hmem => below_of_sealed (openEffects_append hmem)
  · exact hlive

/-- **One step of a session directory.** -/
theorem hostInv_step {s t : Host} {action : Host.Action} (h : HostInv s) (hkept : NumberKept R s action)
    (hstep : s.step R action = some t) : HostInv t := by
  obtain ⟨phase, returned⟩ := s
  obtain ⟨hinc, hphase⟩ := h
  cases action with
  | «open» maxPartBytes =>
    rcases phase with d | l
    · obtain ⟨B, hB⟩ := hphase
      rcases hrun : (openJournal R).run d with ⟨es, error | j⟩
      · simp only [Host.step, hrun, Option.some.injEq] at hstep
        subst hstep
        refine ⟨hinc, B, ?_⟩
        rw [openJournal_eq] at hrun
        rcases hread : readManifestText R d.manifestText with _ | lines
        · rw [hread] at hrun
          cases hrun
          exact hB
        · simp only [hread] at hrun
          rcases hf : headFault (retained d lines) with _ | seg
          · rw [hf] at hrun
            cases hrun
          · rw [hf] at hrun
            cases hrun
            exact hB.gaveUp hread
      · simp only [Host.step, hrun, Option.some.injEq] at hstep
        subst hstep
        obtain ⟨hlt, hlive⟩ := hB.opened hrun maxPartBytes
        refine ⟨List.pairwise_append.mpr ⟨hinc, List.pairwise_singleton _ _, fun N hN N' hN' => ?_⟩, hlive⟩
        rw [List.mem_singleton.mp hN']
        exact lt_of_le_of_lt (hB.returned N hN) hlt
    · cases hstep
  | openStopped k n =>
    rcases phase with d | l
    · obtain ⟨B, hB⟩ := hphase
      cases hstep
      exact ⟨hinc, B, hB.openStopped hkept⟩
    · cases hstep
  | live action =>
    rcases phase with d | l
    · cases hstep
    · obtain ⟨N, base, hN, hle, hbase, htext, hlive⟩ := hphase
      obtain ⟨l', hl', rfl⟩ := Option.map_eq_some_iff.mp hstep
      exact ⟨hinc, N, base, hN, hle, hbase, htext, liveInv_step hbase hlive hl'⟩
  | retain minIncarnation k n =>
    rcases phase with d | l
    · obtain ⟨B, hB⟩ := hphase
      cases hstep
      exact ⟨hinc, hB.retain minIncarnation k n⟩
    · cases hstep
  | stop =>
    rcases phase with d | l
    · cases hstep
    · cases hstep
      exact ⟨hinc, bounded_live hphase⟩
  | crash cut manifestCut =>
    cases hstep
    obtain ⟨B, hB⟩ := bounded_disk hphase
    exact ⟨hinc, B, hB.crash cut manifestCut⟩

end Step

theorem hostInv_start : HostInv Host.start :=
  ⟨List.Pairwise.nil, 0, nofun, .inl rfl, textBelow_nil 0⟩

/-! ### The whole run -/

/-- The tombstones that `open` would find. -/
def tombstones (R : LineReader) (d : Dir) : List ℕ :=
  ((readManifestText R d.manifestText).map retiredIn).getD []

/-- A cursor of one session passes the fence of another only if they are the same
session. -/
theorem fence_of_increasing {returned : List ℕ} (h : returned.Pairwise (· < ·)) {i k : ℕ}
    (hmatch : Pump.incarnationMatches (returned[i]?) (returned[k]?) = true) : i = k := by
  rcases hi : returned[i]? with _ | a
  · rw [hi] at hmatch
    cases hmatch
  rcases hk : returned[k]? with _ | b
  · rw [hi, hk] at hmatch
    cases hmatch
  rw [hi, hk, Pump.incarnationMatches, decide_eq_true_eq] at hmatch
  obtain ⟨hi1, hi2⟩ := List.getElem?_eq_some_iff.mp hi
  obtain ⟨hk1, hk2⟩ := List.getElem?_eq_some_iff.mp hk
  have hnodup : returned.Nodup := h.imp fun hlt => hlt.ne
  rw [← hi2, ← hk2] at hmatch
  exact (List.Nodup.getElem_inj_iff hnodup).mp hmatch

/-- **Incarnation numbers.** In every run of a session directory, from an empty one
on, in which no `open` stops after it removed the last part of the newest
incarnation and before it made the next one: the numbers that `open` returns
increase, a cursor of one session is refused by every other one, and no number is
a tombstoned one, neither when it is returned nor while its session runs. -/
theorem incarnations_increase {R : LineReader} {as : List Host.Action} {s : Host}
    (hrun : Runs.run (Host.step R) Host.start as = some s)
    (hkept : Runs.Meets (Host.step R) (NumberKept R) Host.start as) :
    s.returned.Pairwise (· < ·) ∧
    (∀ i k : ℕ, Pump.incarnationMatches (s.returned[i]?) (s.returned[k]?) = true → i = k) ∧
    (∀ maxPartBytes t N, s.step R (.open maxPartBytes) = some t → t.returned = s.returned ++ [N] →
      N ∉ tombstones R s.phase.disk) ∧
    ∀ l N, s.phase = .live l → s.returned.getLast? = some N → N ∉ tombstones R l.disk := by
  have hinv : HostInv s :=
    Runs.run_invariant_of_meets (fun h hC hstep => hostInv_step h hC hstep) hrun hkept hostInv_start
  refine ⟨hinv.increasing, fun i k => fence_of_increasing hinv.increasing, ?_, ?_⟩
  · intro maxPartBytes t N hstep hret hmem
    rcases hphase : s.phase with d | l
    · rcases hopen : (openJournal R).run d with ⟨es, error | j⟩
      · simp only [Host.step, hphase, hopen, Option.some.injEq] at hstep
        subst hstep
        simp at hret
      · simp only [Host.step, hphase, hopen, Option.some.injEq] at hstep
        subst hstep
        obtain ⟨lines, hread, -, -, hN⟩ := openJournal_ok hopen
        have heq : j.incarnation = N := by simpa using hret
        rw [hphase, Phase.disk, tombstones, hread, Option.map_some, Option.getD_some, ← heq, hN] at hmem
        exact lt_irrefl _ (retired_lt_nextIncarnation hmem)
    · simp only [Host.step, hphase] at hstep
      cases hstep
  · intro l N hphase hlast hmem
    have hp := hinv.phase
    rw [hphase] at hp
    obtain ⟨N', base, hN', -, -, htext, hlive⟩ := hp
    rw [hlast] at hN'
    cases hN'
    obtain ⟨es, hes, heq⟩ := hlive.evolved
    have htext' : TextBelow N l.disk.manifestText := by
      rw [heq]
      exact htext.effects fun bytes hb => below_of_live (liveEffect_append hes bytes hb)
    rcases hread : readManifestText R l.disk.manifestText with _ | lines
    · rw [tombstones, hread] at hmem
      cases hmem
    · rw [tombstones, hread] at hmem
      exact lt_irrefl _ (htext'.retired hread hmem)

/-- Two sessions; between them `open` stops once it has made the second
incarnation's part. -/
def reopenedRun : List Host.Action := [.open 40, .stop, .openStopped 3 0, .open 40]

theorem incarnations_increase_reopened : ∃ s, Runs.run (Host.step exactReader) Host.start reopenedRun = some s ∧
    s.returned = [1, 3] ∧ s.returned.Pairwise (· < ·) := by
  have hrun : (Runs.run (Host.step exactReader) Host.start reopenedRun).any (fun s =>
      decide (s.returned = [1, 3])) = true := by
    decide +kernel
  obtain ⟨s, hs, hret⟩ := (Option.any_eq_true _ _).mp hrun
  have hkept : Runs.Meets (Host.step exactReader) (NumberKept exactReader) Host.start reopenedRun := by
    decide +kernel
  exact ⟨s, hs, of_decide_eq_true hret, (incarnations_increase hs hkept).1⟩

/-- `open` stops right after it removed the empty part of the first incarnation. -/
def forgottenRun : List Host.Action := [.open 40, .stop, .openStopped 1 0, .open 40]

/-- The first incarnation's number is returned twice. -/
theorem number_returned_twice : ∃ s,
    Runs.run (Host.step exactReader) Host.start forgottenRun = some s ∧ s.returned = [1, 1] ∧
    ¬ s.returned.Pairwise (· < ·) := by
  have hrun : (Runs.run (Host.step exactReader) Host.start forgottenRun).any (fun s =>
      decide (s.returned = [1, 1])) = true := by
    decide +kernel
  obtain ⟨s, hs, hret⟩ := (Option.any_eq_true _ _).mp hrun
  have hret' := of_decide_eq_true hret
  exact ⟨s, hs, hret', by rw [hret']; decide⟩

end Journal
end OpenRelay
