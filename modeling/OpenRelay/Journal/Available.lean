/-
# `open` after a crash

A crash may stop `open` itself, or anything of the session that follows: the
appender's writes, the sealing of a part, a tombstone. The parts never keep the
next `open` from succeeding; the manifest does if a line of it is left unfinished.
The reader takes such a line for a malformed one, or, if only its newline is
missing, reads it and runs it into the next line that is appended
(`reopens_iff`).
-/
import OpenRelay.Journal.Live

namespace OpenRelay
namespace Journal

open Image ShadowJournal

variable {R : LineReader}

/-- `open` succeeds, and the lines that are appended next are read back as
separate lines. -/
structure Reopens (R : LineReader) (d : Dir) : Prop where
  opens : ∃ es j, (openJournal R).run d = (es, .ok j)
  separate : ∀ lines, readManifestText R d.manifestText = some lines →
    ∀ new, readManifestText R (d.manifestText ++ renderAll new) = some (lines ++ new)

/-- The newest part that is not retired starts its incarnation at 1, if it is a
first part at all. -/
def HeadSound (R : LineReader) (d : Dir) : Prop :=
  ∀ lines, readManifestText R d.manifestText = some lines → headFault (retained d lines) = none

/-- Lines are read back as separate lines from a line boundary on only. -/
theorem separate_iff {text : Bytes} {lines : List ManifestLine} (h : readManifestText R text = some lines) :
    (∀ new, readManifestText R (text ++ renderAll new) = some (lines ++ new)) ↔ AtBoundary text := by
  refine ⟨fun hsep => ?_, fun hb new => read_append_lines hb h new⟩
  by_contra hb
  obtain ⟨t, ht⟩ := renderAll_cons_head (.retired ⟨0⟩) []
  have hmerged := read_append_merged hb (by rw [h]; exact Option.some_ne_none _) t
  have hone := hsep [.retired ⟨0⟩]
  rw [ht, hmerged] at hone
  cases hone

/-- What `open` needs. -/
theorem reopens_iff_read {d : Dir} : Reopens R d ↔
    (AtBoundary d.manifestText ∧ ∃ lines, readManifestText R d.manifestText = some lines) ∧ HeadSound R d := by
  constructor
  · rintro ⟨⟨es, j, hopen⟩, hsep⟩
    obtain ⟨lines, hread, hhead, -, -⟩ := openJournal_ok hopen
    refine ⟨⟨(separate_iff hread).mp (hsep lines hread), lines, hread⟩, fun lines' hread' => ?_⟩
    rw [hread] at hread'
    cases hread'
    exact hhead
  · rintro ⟨⟨hb, lines, hread⟩, hhead⟩
    refine ⟨⟨openEffects d lines, ⟨openedIncarnation d lines, newestReport (retained d lines)⟩, ?_⟩,
      fun lines' hread' => (separate_iff hread').mpr hb⟩
    rw [openJournal_eq, hread]
    simp only [hhead lines hread]

/-! ### The manifest a crash leaves -/

/-- Effects that append pieces of lines. -/
theorem appended_pieces {P : ManifestLine → Prop} : ∀ {es : List Effect},
    (∀ bytes, Effect.appendManifest bytes ∈ es → IsPiece P bytes) →
    ∃ pieces : List Bytes, (∀ p ∈ pieces, IsPiece P p) ∧ es.flatMap Effect.appended = pieces.flatten
  | [], _ => ⟨[], nofun, rfl⟩
  | e :: es, h => by
    obtain ⟨pieces, hp, heq⟩ := appended_pieces fun bytes hb => h bytes (List.mem_cons_of_mem _ hb)
    rw [List.flatMap_cons, heq]
    cases e with
    | appendManifest bytes =>
      refine ⟨bytes :: pieces, fun p hmem => ?_, rfl⟩
      rcases List.mem_cons.mp hmem with rfl | hmem
      · exact h p List.mem_cons_self
      · exact hp p hmem
    | createPart _ | writePart _ _ | syncPart _ | setLen _ _ | removePart _ | syncManifest | syncDir =>
      exact ⟨pieces, hp, rfl⟩

/-- After effects that append pieces of lines, a crash leaves a beginning of the
manifest before and of these pieces. -/
theorem crash_pieces {P : ManifestLine → Prop} {es : List Effect}
    (h : ∀ bytes, Effect.appendManifest bytes ∈ es → IsPiece P bytes) (d : Dir) (cut : Seg → ℕ) (manifestCut : ℕ) :
    ∃ pieces : List Bytes, (∀ p ∈ pieces, IsPiece P p) ∧
      ((applyEffects es d).crash cut manifestCut).manifestText <+: d.manifestText ++ pieces.flatten := by
  obtain ⟨pieces, hp, heq⟩ := appended_pieces h
  obtain ⟨kept, hkept, hpre⟩ := (applyEffects es d).crash_manifestText cut manifestCut
  refine ⟨pieces, hp, ?_⟩
  rw [hkept, ← heq, ← manifestText_applyEffects]
  exact hpre

/-! ### A crash within `open` -/

/-- A program stops after `k` of its effects, and `n` bytes into the next if that
is a write. -/
def stopped (es : List Effect) (k n : ℕ) : List Effect := es.take k ++ ((es[k]?).map (Effect.cut n)).getD []

theorem mem_stopped {es : List Effect} {k n : ℕ} {e : Effect} (h : e ∈ stopped es k n) :
    e ∈ es ∨ ∃ e' ∈ es, e ∈ e'.cut n := by
  rcases List.mem_append.mp h with h | h
  · exact .inl (List.mem_of_mem_take h)
  · rcases hk : es[k]? with _ | e'
    · rw [hk] at h
      cases h
    · rw [hk] at h
      exact .inr ⟨e', List.mem_of_getElem? hk, h⟩

theorem settleEffects_append {seg : Seg} {bytes : Bytes} {fate : Fate} {line : Bytes}
    (h : Effect.appendManifest line ∈ settleEffects seg bytes fate) :
    ∃ first last, line = (ManifestLine.sealed (sealEntry seg first last bytes)).render := by
  cases fate with
  | sealed first last =>
    refine ⟨first, last, ?_⟩
    simpa [settleEffects] using h
  | remove | leave => simp [settleEffects] at h

/-- The lines that `open` writes are whole, and about parts. -/
def IsSealed : ManifestLine → Prop
  | .sealed _ => True
  | .retired _ => False

theorem openEffects_append {d : Dir} {lines : List ManifestLine} {bytes : Bytes}
    (h : Effect.appendManifest bytes ∈ openEffects d lines) : IsPiece IsSealed bytes := by
  have hline : ∀ {seg : Seg} {file : Bytes} {fate : Fate},
      Effect.appendManifest bytes ∈ settleEffects seg file fate → IsPiece IsSealed bytes := by
    intro seg file fate h
    obtain ⟨first, last, rfl⟩ := settleEffects_append h
    exact ⟨.sealed (sealEntry seg first last file), trivial, List.prefix_refl _⟩
  rcases List.mem_append.mp h with h | h
  · rcases List.mem_append.mp h with h | h
    · rcases retireEffects_cases h with ⟨seg, -, -, h⟩ | h <;> cases h
    · rcases recoverEffects_cases h with ⟨seg, file, -, h⟩ | ⟨seg, -, h⟩
      · rcases List.mem_append.mp h with h | h
        · unfold rewindEffects at h
          split at h <;> simp at h
        · split at h
          · cases h
          · exact hline h
      · unfold partEffects at h
        split at h
        · cases h
        · exact hline h
  · simp at h

theorem isPiece_cut {P : ManifestLine → Prop} {es : List Effect}
    (h : ∀ bytes, Effect.appendManifest bytes ∈ es → IsPiece P bytes) (k n : ℕ) :
    ∀ bytes, Effect.appendManifest bytes ∈ stopped es k n → IsPiece P bytes := by
  intro bytes hmem
  rcases mem_stopped hmem with hmem | ⟨e', he', hmem⟩
  · exact h bytes hmem
  · cases e' with
    | appendManifest whole =>
      have heq := List.mem_singleton.mp hmem
      cases heq
      obtain ⟨line, hP, hpre⟩ := h whole he'
      exact ⟨line, hP, (List.take_prefix _ _).trans hpre⟩
    | writePart _ _ => cases List.mem_singleton.mp hmem
    | createPart _ | syncPart _ | setLen _ _ | removePart _ | syncManifest | syncDir =>
      exact absurd hmem List.not_mem_nil

/-- After a crash within `open`. -/
theorem reopens_opening {d₀ : Dir} {es : List Effect} {j : OpenedJournal}
    (hopen : (openJournal R).run d₀ = (es, .ok j)) (k n : ℕ) (cut : Seg → ℕ) (manifestCut : ℕ) :
    Reopens R ((applyEffects (stopped es k n) d₀).crash cut manifestCut) ↔
      WholeLines d₀.manifestText ((applyEffects (stopped es k n) d₀).crash cut manifestCut).manifestText ∧
      HeadSound R ((applyEffects (stopped es k n) d₀).crash cut manifestCut) := by
  obtain ⟨lines₀, hread₀, -, rfl, -⟩ := openJournal_ok hopen
  obtain ⟨pieces, hp, hpre⟩ :=
    crash_pieces (isPiece_cut (fun _ h => openEffects_append h) k n) d₀ cut manifestCut
  rw [reopens_iff_read, wholeLines_iff hread₀ hp hpre]

/-! ### A crash of a running session -/

/-- The first record of a part announces its number, even if it is torn. -/
theorem tailFirst_torn {r : Record} (hr : r.Fits) {torn : Bytes} (hpre : torn <+: r.encode) :
    tailFirst torn = none ∨ tailFirst torn = some r.seq := by
  by_cases hne : torn = []
  · rw [hne]
    exact .inl rfl
  by_cases hlen : torn.length < headerLen
  · left
    rw [tailFirst, partFirstSeq, if_neg hne, if_pos hlen]
  · right
    have hhead := header_of_torn hpre hlen
    have hmagic : torn.take 4 = recordMagic := by
      rw [hhead]
      rfl
    have hseq : field torn 12 8 = LittleEndian.leBytes 8 r.seq := by
      rw [hhead]
      rfl
    rw [tailFirst, partFirstSeq, if_neg hne, if_neg hlen, if_neg (not_not.mpr hmagic), hseq,
      LittleEndian.leNat_leBytes (by simpa using hr.seq)]

/-- The active part of a journal that crashed starts its incarnation at 1, if it
is the first part. -/
theorem Crashed.head {N : ℕ} {base d : Dir} {published : List OrderedEvent} {img : Image}
    (h : Crashed N base published img d) :
    badHead ⟨N, img.part⟩ (encodeAll img.current ++ img.torn) = false := by
  rw [badHead, decide_eq_false_iff_not]
  rintro ⟨hpart, hfirst⟩
  have hrot : img.rotated = [] := by
    simp only [Image.part] at hpart
    exact List.length_eq_zero_iff.mp (by omega)
  have hrec : img.records = img.current := by rw [Image.records, hrot]; rfl
  have hnum := h.numbered
  have hfits := h.fits
  rw [hrec] at hnum hfits
  rcases hcur : img.current with _ | ⟨r, rs⟩
  · rw [hcur, encodeAll_nil, List.nil_append] at hfirst
    rcases h.torn with h0 | ⟨r, hr, hseq, hpre, -⟩
    · rw [h0] at hfirst
      cases hfirst
    · rw [hrec, hcur, List.length_nil] at hseq
      rcases tailFirst_torn hr hpre with hnone | hsome
      · rw [hnone] at hfirst
        cases hfirst
      · rw [hsome, hseq] at hfirst
        cases hfirst
  · rw [hcur] at hnum hfits hfirst
    rw [tailFirst_cons (hfits r List.mem_cons_self), (numbered_cons.mp hnum).1] at hfirst
    cases hfirst

theorem liveEffect_append {N : ℕ} {es : List Effect} (h : ∀ e ∈ es, LiveEffect N e) :
    ∀ bytes, Effect.appendManifest bytes ∈ es → IsPiece (LiveLine N) bytes :=
  fun _ hmem => h _ hmem

/-- The newest part a live journal leaves is its active one. -/
theorem LiveInv.headSound {N : ℕ} {base : Dir} {l : Live} (h : LiveInv N base l)
    (hbase : ∀ seg ∈ base.listSegments, seg.incarnation ≤ N) {lines : List ManifestLine}
    (hN : N ∉ retiredIn lines) (cut : Seg → ℕ) (manifestCut : ℕ) :
    headFault (retained (l.disk.crash cut manifestCut) lines) = none := by
  have hle := h.le hbase
  obtain ⟨d, hinv, hagree⟩ := h.ghost
  obtain ⟨img, hcrash, -⟩ := hinv.crash (atRest_freshDir N) cut manifestCut
  have hagree' := hagree.crash cut manifestCut
  have hzero : (l.disk.crash cut manifestCut).partData ⟨N, 0⟩ = none := by
    rw [hagree'.partData]
    exact hcrash.shape.partData_zero
  have hfiles : ∀ i, (l.disk.crash cut manifestCut).partData ⟨N, i + 1⟩ =
      (img.rotated.map encodeAll ++ [encodeAll img.current ++ img.torn])[i]? := by
    intro i
    rw [hagree'.partData]
    exact hcrash.shape.partData_files i
  have hnew := newest_of_files hzero hfiles (by rwa [Dir.crash_listSegments]) hN
  rw [List.length_map] at hnew
  have hhead := hcrash.head
  rw [Image.part] at hhead
  rw [headFault, hnew]
  simp only [hhead, Bool.false_eq_true, if_false]

theorem retired_mem {lines : List ManifestLine} {i : ℕ} : i ∈ retiredIn lines ↔ .retired ⟨i⟩ ∈ lines := by
  rw [retiredIn, List.mem_filterMap]
  constructor
  · rintro ⟨_ | ⟨_⟩, hline, heq⟩
    · cases heq
    · cases heq
      exact hline
  · intro hline
    exact ⟨_, hline, rfl⟩

/-- After a crash of a running session. -/
theorem reopens_running {d₀ : Dir} {es : List Effect} {j : OpenedJournal}
    (hopen : (openJournal R).run d₀ = (es, .ok j)) (maxPartBytes : ℕ) {as : List Live.Action} {l : Live}
    (hrun : Runs.run (Live.step R) (Live.opened j.incarnation maxPartBytes (applyEffects es d₀)) as = some l)
    (cut : Seg → ℕ) (manifestCut : ℕ) :
    Reopens R (l.disk.crash cut manifestCut) ↔
      WholeLines d₀.manifestText (l.disk.crash cut manifestCut).manifestText := by
  have hbase := le_of_open hopen
  have hinv := (liveInv_of_open hopen maxPartBytes).run hbase hrun
  obtain ⟨lines₀, hread₀, -, rfl, hN⟩ := openJournal_ok hopen
  -- what was appended since: the lines of `open`, and the live ones
  obtain ⟨live, hlive, hdisk⟩ := hinv.evolved
  have happend : ∀ bytes, Effect.appendManifest bytes ∈ openEffects d₀ lines₀ ++ live →
      IsPiece (fun line => IsSealed line ∨ LiveLine j.incarnation line) bytes := by
    intro bytes hmem
    rcases List.mem_append.mp hmem with hmem | hmem
    · obtain ⟨line, hP, hpre⟩ := openEffects_append hmem
      exact ⟨line, .inl hP, hpre⟩
    · obtain ⟨line, hP, hpre⟩ := liveEffect_append hlive bytes hmem
      exact ⟨line, .inr hP, hpre⟩
  obtain ⟨pieces, hp, hpre⟩ := crash_pieces happend d₀ cut manifestCut
  rw [applyEffects_append, ← hdisk] at hpre
  rw [reopens_iff_read, wholeLines_iff hread₀ hp hpre, and_iff_left_of_imp]
  rintro ⟨hb, -⟩ lines hread
  refine hinv.headSound hbase (fun hret => ?_) cut manifestCut
  -- no tombstone is the active incarnation's
  rcases mem_of_read hread₀ hp hpre hb hread _ (retired_mem.mp hret) with hold | hsealed | hlt
  · have hlt := @retired_lt_nextIncarnation (retained d₀ lines₀).listSegments _ _ (retired_mem.mpr hold)
    rw [← openedIncarnation, ← hN] at hlt
    exact lt_irrefl _ hlt
  · exact hsealed
  · exact lt_irrefl _ hlt

/-- **`open` after a crash.** On a directory on which `open` succeeds it runs, and
the machine stops within it, or at any point of the session that follows. The
next `open` succeeds, and the lines that are appended next are read back as
separate lines, if and only if the crash left whole lines in the manifest; within
`open` it must also leave a newest part that starts its incarnation at 1. -/
theorem reopens_iff {d₀ : Dir} {es : List Effect} {j : OpenedJournal}
    (hopen : (openJournal R).run d₀ = (es, .ok j)) (cut : Seg → ℕ) (manifestCut : ℕ) :
    (∀ k n, Reopens R ((applyEffects (stopped es k n) d₀).crash cut manifestCut) ↔
      WholeLines d₀.manifestText ((applyEffects (stopped es k n) d₀).crash cut manifestCut).manifestText ∧
      HeadSound R ((applyEffects (stopped es k n) d₀).crash cut manifestCut)) ∧
    ∀ maxPartBytes as l,
      Runs.run (Live.step R) (Live.opened j.incarnation maxPartBytes (applyEffects es d₀)) as = some l →
      (Reopens R (l.disk.crash cut manifestCut) ↔
        WholeLines d₀.manifestText (l.disk.crash cut manifestCut).manifestText) :=
  ⟨fun k n => reopens_opening hopen k n cut manifestCut,
    fun maxPartBytes _ _ hrun => reopens_running hopen maxPartBytes hrun cut manifestCut⟩

/-- The run that starts another part, up to its first manifest line. -/
def sealingRun : List Live.Action := (tornRun.take 12).map .journal

theorem reopens_iff_sealing : ∃ l,
    Runs.run (Live.step exactReader) (Live.opened 1 40 (applyEffects [.createPart ⟨1, 1⟩, .syncDir] Dir.empty))
      sealingRun = some l ∧
    (Reopens exactReader (l.disk.crash (fun _ => 10) 100) ↔
      WholeLines Dir.empty.manifestText (l.disk.crash (fun _ => 10) 100).manifestText) := by
  have hrun : (Runs.run (Live.step exactReader)
      (Live.opened 1 40 (applyEffects [.createPart ⟨1, 1⟩, .syncDir] Dir.empty)) sealingRun).isSome = true := by
    decide +kernel
  obtain ⟨l, hl⟩ := Option.isSome_iff_exists.mp hrun
  exact ⟨l, hl, (reopens_iff open_empty (fun _ => 10) 100).2 40 sealingRun l hl⟩

/-- Ten bytes of the manifest's first line are on disk, and `open` takes them for a
malformed manifest. -/
theorem torn_manifest_line_bars_open : ∃ l,
    Runs.run (Live.step exactReader) (Live.opened 1 40 (applyEffects [.createPart ⟨1, 1⟩, .syncDir] Dir.empty))
      sealingRun = some l ∧ ¬ Reopens exactReader (l.disk.crash (fun _ => 10) 10) := by
  have hrun : (Runs.run (Live.step exactReader)
      (Live.opened 1 40 (applyEffects [.createPart ⟨1, 1⟩, .syncDir] Dir.empty)) sealingRun).any (fun l =>
        !((openJournal exactReader).run (l.disk.crash (fun _ => 10) 10)).2.toBool) = true := by
    decide +kernel
  obtain ⟨l, hl, hfail⟩ := (Option.any_eq_true _ _).mp hrun
  refine ⟨l, hl, ?_⟩
  rintro ⟨⟨es, j, hopen⟩, -⟩
  rw [hopen] at hfail
  cases hfail

end Journal
end OpenRelay
