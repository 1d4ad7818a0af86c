/-
# What recovery leaves alone

Recovery may truncate the newest part to its valid length after a torn tail, if
it is not sealed, remove empty parts that are not sealed and parts of retired
incarnations, append to the manifest and create the next incarnation's first
part (`Permitted`). Whatever it does within that keeps the bytes of sealed parts
and every valid record (`keeps_of_permitted`).

The rewind does not ask the manifest whether the newest part is sealed. So
recovery stays within what is permitted exactly if the newest part is not a
sealed one with a torn tail (`untouched_iff_not_torn`).
-/
import OpenRelay.Journal.ManifestReader
import OpenRelay.Journal.Open

namespace OpenRelay
namespace Journal

open Effects

/-- What recovery may do to a directory, given what the manifest said. -/
def Permitted (lines : List ManifestLine) (d : Dir) : Effect → Prop
  | .createPart seg => seg.part = 1 ∧ (∀ seg' ∈ d.listSegments, seg'.incarnation < seg.incarnation) ∧
      ∀ i ∈ retiredIn lines, i < seg.incarnation
  | .writePart _ _ | .syncPart _ => False
  | .setLen seg n => seg ∉ manifestedIn lines ∧ ∃ file, newest d = some (seg, file) ∧
      (tailStats file).stop = .partialTail ∧ n = (tailStats file).validLen
  | .removePart seg => seg.incarnation ∈ retiredIn lines ∨
      seg ∉ manifestedIn lines ∧ d.partData seg = some []
  | .appendManifest _ | .syncManifest | .syncDir => True

/-- Outside retired incarnations, sealed parts keep their bytes and every part
its valid records, whichever record a scan expects first. -/
def Keeps (lines : List ManifestLine) (d d' : Dir) : Prop :=
  ∀ seg file, seg.incarnation ∉ retiredIn lines → d.partData seg = some file →
    (seg ∈ manifestedIn lines → d'.partData seg = some file) ∧
    ∀ expected, (parseRecords expected file).1 <+:
      (parseRecords expected ((d'.partData seg).getD [])).1

/-- The lines `open` goes by: those of the manifest, if it can be read. -/
def knownLines (R : LineReader) (d : Dir) : List ManifestLine :=
  (readManifestText R d.manifestText).getD []

/-- Recovery takes only permitted effects, and after each of them the sealed
parts and the valid records are as they were. -/
structure SealedUntouched (R : LineReader) (d : Dir) : Prop where
  effects : Along Effect.apply (Permitted (knownLines R d)) ((openJournal R).run d).1 d
  keeps : ∀ es, es <+: ((openJournal R).run d).1 → Keeps (knownLines R d) d (applyEffects es d)

/-- The newest part is sealed, and ends in the middle of a record. -/
def SealedTailTorn (R : LineReader) (d : Dir) : Prop :=
  ∃ lines seg file, readManifestText R d.manifestText = some lines ∧
    newest (retained d lines) = some (seg, file) ∧ seg ∈ manifestedIn lines ∧
    badHead seg file = false ∧ (tailStats file).stop = .partialTail

/-! ### Permitted effects keep what is sealed and what is valid -/

theorem keeps_refl (lines : List ManifestLine) (d : Dir) : Keeps lines d d := by
  intro seg file _ hfile
  rw [hfile]
  exact ⟨fun _ => rfl, fun _ => List.prefix_refl _⟩

theorem keeps_trans {lines : List ManifestLine} {d d' d'' : Dir} (h : Keeps lines d d')
    (h' : Keeps lines d' d'') : Keeps lines d d'' := by
  intro seg file hret hfile
  obtain ⟨hbytes, hrecs⟩ := h seg file hret hfile
  rcases hd' : d'.partData seg with _ | file'
  · rw [hd'] at hbytes hrecs
    refine ⟨fun hm => absurd (hbytes hm) (by simp), fun expected => ?_⟩
    have hnil := List.prefix_nil.mp (hrecs expected)
    rw [hnil]
    exact List.nil_prefix
  · obtain ⟨hbytes', hrecs'⟩ := h' seg file' hret hd'
    rw [hd'] at hbytes hrecs
    refine ⟨fun hm => ?_, fun expected => (hrecs expected).trans (hrecs' expected)⟩
    rw [hbytes' hm, ← hbytes hm]

/-- What a scan accepts, whichever record it expects first, recovery accepts. -/
theorem parseRecords_prefix_tail (expected : Option ℕ) (file : Bytes) :
    (parseRecords expected file).1 = [] ∨
      parseRecords expected file = parseRecords (tailFirst file) file := by
  rcases hr : readRecord file with stop | r
  · left
    rw [parseRecords_step, hr]
  · by_cases hb : breaksSeq expected r.seq = true
    · left
      rw [parseRecords_step, hr]
      simp only [hb, if_true]
    · right
      have hself : breaksSeq (tailFirst file) r.seq = false := by
        rw [tailFirst_of_readRecord hr, breaksSeq_self]
      rw [parseRecords_cons hr (by simpa using hb), parseRecords_cons hr hself]

/-- A part cut to the valid length that recovery found keeps every valid
record. -/
theorem parseRecords_rewound (expected : Option ℕ) (file : Bytes) :
    (parseRecords expected file).1 <+:
      (parseRecords expected (file.take (tailStats file).validLen)).1 := by
  rcases parseRecords_prefix_tail expected file with h | h
  · rw [h]
    exact List.nil_prefix
  · have hlen : (tailStats file).validLen = sizeAll (parseRecords expected file).1 := by
      rw [tailStats, scanSegmentStatsFrom_eq, h]
    rw [hlen, parseRecords_take]

theorem keeps_of_permitted {lines : List ManifestLine} {d : Dir} {e : Effect}
    (h : Permitted lines d e) : Keeps lines d (e.apply d) := by
  intro seg file hret hfile
  by_cases hpart : e.part? = some seg
  · cases e <;> simp only [Effect.part?, Option.some.injEq, reduceCtorEq] at hpart <;> subst hpart
    · -- a part that is there is not created again
      have hmem : _ ∈ d.listSegments := (mem_listSegments d _).mpr (by rw [hfile]; rfl)
      exact absurd (h.2.1 _ hmem) (lt_irrefl _)
    · exact h.elim
    · exact h.elim
    · obtain ⟨hnot, file', hnew, -, rfl⟩ := h
      have heq : file' = file := Option.some.inj ((newest_eq_some.mp hnew).2.symm.trans hfile)
      rw [partData_setLen, hfile, heq]
      exact ⟨fun hm => absurd hm hnot, fun expected => parseRecords_rewound expected file⟩
    · obtain ⟨hnot, hempty⟩ := h.resolve_left hret
      have hnil : file = [] := Option.some.inj (hfile.symm.trans hempty)
      rw [partData_removePart, hnil]
      exact ⟨fun hm => absurd hm hnot, fun expected => List.prefix_refl _⟩
  · rw [partData_apply_of_ne hpart]
    exact keeps_refl lines d seg file hret hfile

/-! ### What recovery takes -/

/-- Settling a part that is not sealed: it is removed only if it is empty. -/
theorem along_settle {lines : List ManifestLine} {d : Dir} {seg : Seg} {file : Bytes} {fate : Fate}
    (hnot : seg ∉ manifestedIn lines) (hremove : fate = .remove → d.partData seg = some []) :
    Along Effect.apply (Permitted lines) (settleEffects seg file fate) d := by
  cases fate with
  | sealed first last => exact ⟨trivial, trivial, trivial, trivial⟩
  | remove => exact ⟨.inr ⟨hnot, hremove rfl⟩, trivial, trivial⟩
  | leave => trivial

theorem along_retire (d : Dir) (lines : List ManifestLine) :
    Along Effect.apply (Permitted lines) (retireEffects d (retiredIn lines)) d := by
  refine along_of_forall fun e he s => ?_
  rcases retireEffects_cases he with ⟨seg, -, hret, rfl⟩ | rfl
  · exact .inl hret
  · trivial

/-- Recovering the newest part is permitted unless it rewinds a sealed one. -/
theorem along_tail {lines : List ManifestLine} {d : Dir} {seg : Seg} {file : Bytes}
    (hnew : newest d = some (seg, file))
    (htorn : seg ∈ manifestedIn lines → (tailStats file).stop ≠ .partialTail) :
    Along Effect.apply (Permitted lines) (tailEffects (manifestedIn lines) seg file) d := by
  have hfile := (newest_eq_some.mp hnew).2
  rw [tailEffects, along_append]
  constructor
  · unfold rewindEffects
    split
    · rename_i hstop
      rw [ScanStop.mayRewind, decide_eq_true_eq] at hstop
      exact ⟨⟨fun hm => htorn hm hstop, file, hnew, hstop, rfl⟩, trivial, trivial⟩
    · trivial
  · split
    · trivial
    · rename_i hnot
      rw [List.contains_iff_mem] at hnot
      refine along_settle hnot fun hfate => ?_
      have hnil := tailFate_remove hfate
      -- an empty part is not rewound
      have hnone : rewindEffects seg file = [] := by
        rw [hnil]; rfl
      rw [hnone, applyAll_nil, hfile, hnil]

/-- Settling the older parts is permitted. -/
theorem along_parts {lines : List ManifestLine} {tail : Option Seg} {d₀ : Dir} :
    ∀ {segs : List Seg} {d : Dir}, segs.Nodup →
      (∀ seg ∈ segs, some seg ≠ tail → d.partData seg = d₀.partData seg ∧ (d₀.partData seg).isSome) →
      Along Effect.apply (Permitted lines) (segs.flatMap (partEffects (manifestedIn lines) tail d₀)) d
  | [], _, _, _ => trivial
  | seg :: segs, d, hnd, hsame => by
    obtain ⟨hnot, hnd'⟩ := List.nodup_cons.mp hnd
    rw [List.flatMap_cons, along_append]
    constructor
    · unfold partEffects
      split
      · trivial
      · rename_i hc
        rw [not_or, List.contains_iff_mem] at hc
        obtain ⟨h1, h2⟩ := hsame seg List.mem_cons_self hc.1
        refine along_settle hc.2 fun hfate => ?_
        obtain ⟨file, hfile⟩ := Option.isSome_iff_exists.mp h2
        rw [hfile, Option.getD_some] at hfate
        rw [h1, hfile, olderFate_remove hfate]
    · refine along_parts hnd' fun seg' hmem htail => ?_
      have hkeep : (applyEffects (partEffects (manifestedIn lines) tail d₀ seg) d).partData seg' =
          d.partData seg' := by
        refine partData_applyEffects_of_ne (fun e he heq => ?_) d
        rcases partEffects_part he with h | h
        · rw [h] at heq
          cases heq
        · rw [h] at heq
          cases heq
          exact hnot hmem
      rw [← applyEffects, hkeep]
      exact hsame seg' (List.mem_cons_of_mem _ hmem) htail

variable {R : LineReader}

/-- **Recovery within its bounds.** It takes only permitted effects unless the
newest part is a sealed one with a torn tail. -/
theorem along_open {d : Dir} (htorn : ¬ SealedTailTorn R d) :
    Along Effect.apply (Permitted (knownLines R d)) ((openJournal R).run d).1 d := by
  rw [openJournal_eq, knownLines]
  rcases hm : readManifestText R d.manifestText with _ | lines
  · trivial
  · simp only [Option.getD_some]
    rcases hf : headFault (retained d lines) with _ | seg
    · have hnewest : Along Effect.apply (Permitted lines) (newestEffects (manifestedIn lines) (retained d lines))
          (retained d lines) := by
        unfold newestEffects
        rcases hn : newest (retained d lines) with _ | ⟨seg, file⟩
        · trivial
        · refine along_tail hn fun hman hstop => htorn ⟨lines, seg, file, hm, hn, hman, ?_, hstop⟩
          simpa [headFault, hn] using hf
      have hparts : Along Effect.apply (Permitted lines)
          ((retained d lines).listSegments.flatMap (partEffects (manifestedIn lines)
            (retained d lines).listSegments.getLast? (retained d lines)))
          (applyEffects (newestEffects (manifestedIn lines) (retained d lines)) (retained d lines)) := by
        refine along_parts ((retained d lines).parts.keys_pairwise.imp ne_of_lt) ?_
        intro seg hseg hne
        exact ⟨partData_newestEffects hne, (mem_listSegments _ _).mp hseg⟩
      have hcreate : Along Effect.apply (Permitted lines)
          [.createPart ⟨openedIncarnation d lines, 1⟩, .syncDir]
          (applyEffects (recoverEffects d lines) (retained d lines)) :=
        ⟨⟨rfl, fun seg hseg => lt_nextIncarnation (mem_listSegments_recovered hseg),
          fun i hi => retired_lt_nextIncarnation hi⟩, trivial, trivial⟩
      have hrec : Along Effect.apply (Permitted lines) (recoverEffects d lines) (retained d lines) :=
        along_append.mpr ⟨hnewest, hparts⟩
      simp only [openEffects]
      rw [along_append, along_append]
      refine ⟨⟨along_retire d lines, hrec⟩, ?_⟩
      rw [applyAll_append]
      exact hcreate
    · exact along_retire d lines

/-- The rewind of a sealed part is not permitted. -/
theorem not_along_of_torn {d : Dir} (htorn : SealedTailTorn R d) :
    ¬ Along Effect.apply (Permitted (knownLines R d)) ((openJournal R).run d).1 d := by
  obtain ⟨lines, seg, file, hm, hn, hman, hhead, hstop⟩ := htorn
  intro hal
  have hf : headFault (retained d lines) = none := by
    simp only [headFault, hn, hhead, Bool.false_eq_true, if_false]
  have hrun : ((openJournal R).run d).1 = openEffects d lines := by
    rw [openJournal_eq, hm]
    simp only [hf]
  have hknown : knownLines R d = lines := by rw [knownLines, hm, Option.getD_some]
  have hrewind : rewindEffects seg file = [.setLen seg (tailStats file).validLen, .syncDir] := by
    rw [rewindEffects, hstop]
    rfl
  rw [hrun, hknown, openEffects, along_append, along_append] at hal
  have hrec : Along Effect.apply (Permitted lines) (recoverEffects d lines) (retained d lines) := hal.1.2
  rw [recoverEffects, along_append] at hrec
  have hnew := hrec.1
  rw [newestEffects, hn] at hnew
  simp only [tailEffects, along_append, hrewind] at hnew
  exact hnew.1.1.1 hman

theorem not_untouched_of_torn {d : Dir} (htorn : SealedTailTorn R d) : ¬ SealedUntouched R d :=
  fun h => not_along_of_torn htorn h.effects

/-- **Recovery and sealed data.** Recovery takes only permitted effects and
keeps the bytes of sealed parts and every valid record, exactly if the newest
part is not a sealed one that ends in the middle of a record. -/
theorem untouched_iff_not_torn (R : LineReader) (d : Dir) :
    SealedUntouched R d ↔ ¬ SealedTailTorn R d := by
  constructor
  · intro h htorn
    exact not_untouched_of_torn htorn h
  · intro htorn
    have hal := along_open htorn
    refine ⟨hal, fun es hpre => ?_⟩
    exact along_of_append (keeps_refl _) keeps_trans keeps_of_permitted hal hpre

/-- A sealed part of one record, of which the disk has kept five bytes. -/
def cutSealedPart : Dir where
  parts := SortedMap.empty.insert ⟨1, 1⟩ ⟨[79, 74, 82, 78, 1], []⟩
  manifest := some
    ⟨renderAll [.sealed (sealEntry ⟨1, 1⟩ 1 1 (Record.encode ⟨.output, 1, 0, []⟩))], []⟩

/-- The five bytes are cut off. -/
theorem cut_sealed_part_is_truncated : ¬ SealedUntouched exactReader cutSealedPart := by
  have hread : readManifestText exactReader cutSealedPart.manifestText =
      some [.sealed (sealEntry ⟨1, 1⟩ 1 1 (Record.encode ⟨.output, 1, 0, []⟩))] := by
    simp only [cutSealedPart, Dir.manifestText, File.data, Option.map_some, Option.getD_some,
      List.append_nil, read_renderAll]
  have hnewest : newest (retained cutSealedPart
      [.sealed (sealEntry ⟨1, 1⟩ 1 1 (Record.encode ⟨.output, 1, 0, []⟩))]) =
      some (⟨1, 1⟩, [79, 74, 82, 78, 1]) := rfl
  have hstop : (tailStats [79, 74, 82, 78, 1]).stop = .partialTail := by decide +kernel
  have hman : (⟨1, 1⟩ : Seg) ∈ manifestedIn
      [.sealed (sealEntry ⟨1, 1⟩ 1 1 (Record.encode ⟨.output, 1, 0, []⟩))] :=
    List.mem_singleton.mpr rfl
  exact not_untouched_of_torn ⟨_, ⟨1, 1⟩, _, hread, hnewest, hman, rfl, hstop⟩

end Journal
end OpenRelay
