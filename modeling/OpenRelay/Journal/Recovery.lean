/-
# Recovery after a crash

After a crash of the appender's machine, `open` finds the parts that were rotated
out whole, and of the active part at least what was synced. It cuts off a torn
record, and removes the part if no record of it is left; so the incarnation reads
as a beginning of what was published, with everything that was acknowledged as
durable (`crash_recovery`).

Key theorems: `newest_crashed`, `recovered_parts`.
-/
import OpenRelay.Journal.Protocol
import OpenRelay.Journal.Stream

namespace OpenRelay
namespace Journal

open Image ShadowJournal

/-! ### `open` leaves nothing to be synced -/

/-- The effect writes nothing that would have to be synced. -/
def Effect.isSettled : Effect → Bool
  | .writePart _ _ | .appendManifest _ => false
  | _ => true

theorem atRest_apply {d : Dir} (h : d.AtRest) {e : Effect} (he : e.isSettled = true) :
    (e.apply d).AtRest := by
  cases e with
  | writePart _ _ | appendManifest _ => cases he
  | createPart seg =>
    refine ⟨fun seg' file hf => ?_, h.manifest⟩
    rw [Effect.apply, SortedMap.get?_insert] at hf
    split at hf
    · cases hf
      rfl
    · exact h.parts seg' file hf
  | removePart seg =>
    refine ⟨fun seg' file hf => ?_, h.manifest⟩
    rw [Effect.apply, SortedMap.get?_erase] at hf
    split at hf
    · cases hf
    · exact h.parts seg' file hf
  | syncPart seg =>
    refine ⟨fun seg' file hf => ?_, h.manifest⟩
    rw [Effect.apply, SortedMap.get?_adjust] at hf
    split at hf
    · obtain ⟨f, -, rfl⟩ := Option.map_eq_some_iff.mp hf
      rfl
    · exact h.parts seg' file hf
  | setLen seg n =>
    refine ⟨fun seg' file hf => ?_, h.manifest⟩
    rw [Effect.apply, SortedMap.get?_adjust] at hf
    split at hf
    · obtain ⟨f, hf', rfl⟩ := Option.map_eq_some_iff.mp hf
      simp only [File.setLen, h.parts seg' f hf', List.take_nil]
    · exact h.parts seg' file hf
  | syncManifest =>
    refine ⟨h.parts, fun file hf => ?_⟩
    obtain ⟨f, -, rfl⟩ := Option.map_eq_some_iff.mp hf
    rfl
  | syncDir => exact h

theorem atRest_empty : Dir.empty.AtRest := ⟨nofun, nofun⟩

/-- A line that was appended and synced. -/
theorem atRest_line {d : Dir} (h : d.AtRest) (bytes : Bytes) :
    (applyEffects [.appendManifest bytes, .syncManifest] d).AtRest := by
  refine ⟨h.parts, fun file hf => ?_⟩
  simp only [applyEffects_cons, applyEffects_nil, Effect.apply] at hf
  obtain ⟨f, -, rfl⟩ := Option.map_eq_some_iff.mp hf
  rfl

theorem atRest_settle {d : Dir} (h : d.AtRest) (seg : Seg) (bytes : Bytes) (fate : Fate) :
    (applyEffects (settleEffects seg bytes fate) d).AtRest := by
  cases fate with
  | sealed first last => exact atRest_line h _
  | remove => exact @atRest_apply _ h (.removePart seg) rfl
  | leave => exact h

theorem atRest_open {d : Dir} (h : d.AtRest) (lines : List ManifestLine) :
    (applyEffects (openEffects d lines) d).AtRest := by
  have hret : (retained d lines).AtRest := by
    refine Effects.applyAll_invariant (I := Dir.AtRest)
      (P := fun e => e.isSettled = true) (fun h he => atRest_apply h he) (fun e he => ?_) h
    rcases retireEffects_cases he with ⟨seg, -, -, rfl⟩ | rfl <;> rfl
  have hnew : (applyEffects (newestEffects (manifestedIn lines) (retained d lines)) (retained d lines)).AtRest := by
    unfold newestEffects
    rcases newest (retained d lines) with _ | ⟨seg, file⟩
    · exact hret
    · simp only [tailEffects, applyEffects_append]
      have hrewind : (applyEffects (rewindEffects seg file) (retained d lines)).AtRest := by
        unfold rewindEffects
        split
        · exact @atRest_apply _ hret (.setLen seg _) rfl
        · exact hret
      split
      · exact hrewind
      · exact atRest_settle hrewind _ _ _
  have hparts : ∀ (segs : List Seg) (d' : Dir), d'.AtRest → (applyEffects (segs.flatMap
      (partEffects (manifestedIn lines) (retained d lines).listSegments.getLast? (retained d lines))) d').AtRest := by
    intro segs
    induction segs with
    | nil => exact fun d' h' => h'
    | cons seg segs ih =>
      intro d' h'
      rw [List.flatMap_cons, applyEffects_append]
      refine ih _ ?_
      unfold partEffects
      split
      · exact h'
      · exact atRest_settle h' _ _ _
  rw [applyEffects_open, recoverEffects, applyEffects_append]
  exact atRest_apply (hparts _ _ hnew) rfl

/-! ### The newest part after a crash -/

/-- Records, and perhaps the beginning of one more. -/
structure CrashedTail (a : ℕ) (current : List Record) (torn : Bytes) : Prop where
  fits : ∀ r ∈ current, r.Fits
  numbered : Numbered a current
  bound : a + current.length < 2 ^ 64
  torn : torn = [] ∨ ∃ r : Record, r.Fits ∧ torn <+: r.encode ∧ torn.length < r.size

section Tail

variable {a : ℕ} {current : List Record} {torn : Bytes}

theorem tailFirst_cons {r : Record} (hr : r.Fits) (rs : List Record) (t : Bytes) :
    tailFirst (encodeAll (r :: rs) ++ t) = some r.seq := by
  refine tailFirst_of_readRecord ?_
  rw [encodeAll_cons, List.append_assoc]
  exact readRecord_encode hr _

/-- What recovery scans in it: the records, and whether one is torn. -/
theorem CrashedTail.parse (h : CrashedTail a current torn) :
    parseRecords (tailFirst (encodeAll current ++ torn)) (encodeAll current ++ torn) =
      (current, if torn = [] then .cleanEof else .partialTail) := by
  have ht : readRecord torn = .error (if torn = [] then .cleanEof else .partialTail) := by
    rcases h.torn with h0 | ⟨r, hr, hpre, hlt⟩
    · rw [h0]
      rfl
    · exact readRecord_tail hr hpre hlt
  refine parseRecords_encodeAll ht h.fits h.numbered h.bound.le fun hne => .inl ?_
  obtain ⟨r, rs, rfl⟩ := List.exists_cons_of_ne_nil hne
  rw [tailFirst_cons (h.fits r List.mem_cons_self), (numbered_cons.mp h.numbered).1]

theorem CrashedTail.stats (h : CrashedTail a current torn) :
    tailStats (encodeAll current ++ torn) = {
      records := current.length, lastSeq := lastSeqOf current, validLen := sizeAll current
      stop := if torn = [] then .cleanEof else .partialTail } := by
  rw [tailStats, scanSegmentStatsFrom_eq, h.parse]

/-- A torn record is cut off. -/
theorem CrashedTail.rewound (h : CrashedTail a current torn) :
    rewoundBytes (encodeAll current ++ torn) = encodeAll current := by
  have hlen : (encodeAll current).length = sizeAll current := encodeAll_length current
  rw [rewoundBytes, h.stats]
  by_cases h0 : torn = []
  · simp [h0, ScanStop.mayRewind]
  · simp only [h0, if_false, ScanStop.mayRewind, decide_true, if_true]
    rw [← hlen, List.take_left]

end Tail

/-! ### What a crash leaves -/

/-- After a crash: a beginning of the published records, and of the active part
perhaps the beginning of the next one. -/
structure Crashed (N : ℕ) (base : Dir) (published : List OrderedEvent) (img : Image) (d : Dir) : Prop where
  shape : Shape N base img d
  valid : img.Valid N
  records : img.records <+: published.map OrderedEvent.record
  fits : ∀ r ∈ img.records, r.Fits
  numbered : Numbered 1 img.records
  bound : img.records.length + 1 < 2 ^ 64
  torn : img.torn = [] ∨ ∃ r : Record, r.Fits ∧ r.seq = img.records.length + 1 ∧ img.torn <+: r.encode ∧
    img.torn.length < r.size

theorem Crashed.tail {N : ℕ} {base d : Dir} {published : List OrderedEvent} {img : Image}
    (h : Crashed N base published img d) : CrashedTail (1 + img.rotated.flatten.length) img.current img.torn := by
  have hbound := h.bound
  rw [Image.records, List.length_append] at hbound
  refine ⟨fun r hr => h.fits r (List.mem_append_right _ hr), (numbered_append.mp h.numbered).2, by omega, ?_⟩
  refine h.torn.imp_right ?_
  rintro ⟨r, hr, -, hpre, hlt⟩
  exact ⟨r, hr, hpre, hlt⟩

theorem numbered_published {published : List OrderedEvent}
    (h : published.map OrderedEvent.seq = List.range' 1 published.length) :
    Numbered 1 (published.map OrderedEvent.record) := by
  rw [Numbered, List.map_map, List.length_map]
  exact h

/-- **A crash of the appender.** It keeps at least the records that were
acknowledged as durable. -/
theorem Inv.crash {N : ℕ} {base : Dir} {s : ShadowJournal} (h : Inv N base s) (hrest : base.AtRest)
    (cut : Seg → ℕ) (manifestCut : ℕ) :
    ∃ img, Crashed N base s.published img (s.disk.crash cut manifestCut) ∧
      s.appender.lastDurable ≤ img.records.length := by
  obtain ⟨hc, img, hd⟩ := h
  -- the records that may have reached the disk: also the one that is being written
  obtain ⟨r, htorn, hreach, hfits⟩ : ∃ r : Record, img.torn <+: r.encode ∧
      img.rotated.flatten ++ img.reached r <+: s.published.map OrderedEvent.record ∧
      ∀ r' ∈ img.rotated.flatten ++ img.reached r, r'.Fits := by
    have hrec := hd.records
    have hfits := hd.fits
    rw [Image.records] at hrec hfits
    by_cases h0 : img.torn = []
    · refine ⟨⟨.output, 0, 0, []⟩, by rw [h0]; exact List.nil_prefix, ?_, ?_⟩
      · rw [Image.reached, if_pos h0, hrec]
        exact List.take_prefix _ _
      · rw [Image.reached, if_pos h0]
        exact hfits
    · obtain ⟨event, hev, hfit, hpre, -⟩ := hd.torn.resolve_left h0
      have hget : (s.published.map OrderedEvent.record)[s.appender.lastWritten]? = some event.record := by
        rw [List.getElem?_map, hev]
        rfl
      obtain ⟨hlt, hval⟩ := List.getElem?_eq_some_iff.mp hget
      refine ⟨event.record, hpre, ?_, fun r' hr' => ?_⟩
      · rw [Image.reached, if_neg h0, ← List.append_assoc, hrec, ← hval, ← List.take_succ_eq_append_getElem hlt]
        exact List.take_prefix _ _
      · rw [Image.reached, if_neg h0, ← List.append_assoc] at hr'
        rcases List.mem_append.mp hr' with hr' | hr'
        · exact hfits r' hr'
        · rw [List.mem_singleton.mp hr']
          exact hfit
  obtain ⟨img', hshape, hci⟩ := hd.shape.crash hd.valid hrest htorn cut manifestCut
  have hsub : img'.records <+: img.rotated.flatten ++ img.reached r := by
    rw [Image.records, hci.rotated, hci.current]
    exact (List.prefix_append_right_inj _).mpr (List.take_prefix _ _)
  have hrecords := hsub.trans hreach
  have hnumbered : ∀ {rs}, rs <+: s.published.map OrderedEvent.record → Numbered 1 rs := by
    rintro rs ⟨more, hmore⟩
    have hnum := numbered_published hc.numbered
    rw [← hmore] at hnum
    exact (numbered_append.mp hnum).1
  refine ⟨img', ⟨hshape, hci.valid, hrecords, fun r' hr' => hfits r' (hsub.subset hr'), hnumbered hrecords, ?_, ?_⟩, ?_⟩
  · have hle := hrecords.length_le
    have hnext := hc.nextSeq_lt
    rw [hc.nextSeq] at hnext
    rw [List.length_map] at hle
    omega
  · refine hci.torn.imp_right ?_
    rintro ⟨r', hr', hpre, hlt⟩
    refine ⟨r', hfits r' (List.mem_append_right _ (List.mem_of_getElem? hr')), ?_, hpre, hlt⟩
    have hget : (img.rotated.flatten ++ img.reached r)[img'.records.length]? = some r' := by
      rw [Image.records, hci.rotated, List.length_append, List.getElem?_append_right (by omega),
        Nat.add_sub_cancel_left]
      exact hr'
    have hseq := congrArg (fun l : List ℕ => l[img'.records.length]?) (hnumbered hreach)
    simp only [List.getElem?_map, hget, Option.map_some] at hseq
    obtain ⟨hi, hval⟩ := List.getElem?_eq_some_iff.mp hseq.symm
    rw [List.getElem_range', Nat.one_mul] at hval
    omega
  · have hsynced := hd.synced
    have hkept := hci.kept
    rw [Image.synced] at hsynced
    rw [Image.records, hci.rotated, List.length_append]
    omega

/-! ### What `open` finds -/

theorem retiredIn_append (ls ls' : List ManifestLine) :
    retiredIn (ls ++ ls') = retiredIn ls ++ retiredIn ls' := List.filterMap_append

/-- Only retention writes tombstones. -/
theorem retiredIn_groupLines (N : ℕ) (groups : List (List Record)) : retiredIn (groupLines N groups) = [] := by
  refine List.filterMap_eq_nil_iff.mpr fun line hline => ?_
  obtain ⟨i, hi, rfl⟩ := List.mem_mapIdx.mp hline
  rfl

theorem fateLines_sealed {seg : Seg} {bytes : Bytes} {fate : Fate} {line : ManifestLine}
    (h : line ∈ fateLines seg bytes fate) : ∃ first last, line = .sealed (sealEntry seg first last bytes) := by
  cases fate with
  | sealed first last => exact ⟨first, last, List.mem_singleton.mp h⟩
  | remove | leave => cases h

theorem openLines_sealed {d : Dir} {lines : List ManifestLine} {line : ManifestLine}
    (h : line ∈ openLines d lines) : ∃ entry, line = .sealed entry := by
  rcases List.mem_append.mp h with h | h
  · unfold tailLines at h
    split at h
    · cases h
    · split at h
      · cases h
      · obtain ⟨first, last, rfl⟩ := fateLines_sealed h
        exact ⟨_, rfl⟩
  · obtain ⟨seg, -, h⟩ := List.mem_flatMap.mp h
    unfold partLines at h
    split at h
    · cases h
    · obtain ⟨first, last, rfl⟩ := fateLines_sealed h
      exact ⟨_, rfl⟩

theorem retiredIn_openLines (d : Dir) (lines : List ManifestLine) : retiredIn (openLines d lines) = [] := by
  refine List.filterMap_eq_nil_iff.mpr fun line hline => ?_
  obtain ⟨entry, rfl⟩ := openLines_sealed hline
  rfl

/-- After `open` the new incarnation is the greatest. -/
theorem lt_opened {d : Dir} {lines : List ManifestLine} {seg : Seg}
    (h : seg ∈ (applyEffects (openEffects d lines) d).listSegments) :
    seg = ⟨openedIncarnation d lines, 1⟩ ∨ seg.incarnation < openedIncarnation d lines := by
  rw [applyEffects_open] at h
  rcases (SortedMap.mem_keys_insert _ _ _ _).mp h with rfl | h
  · exact .inl rfl
  · exact .inr (lt_nextIncarnation (mem_listSegments_recovered h))

section Crashed

variable {N : ℕ} {base d : Dir} {img : Image}

/-- What the manifest reads as after a crash: with the lines of the last `open`,
and of the parts that were rotated out; perhaps with the active part's, and then
that part is whole. -/
theorem lines_crashed {R : LineReader} {d₀ : Dir} {lines₀ lines : List ManifestLine}
    (h₀ : readManifestText R d₀.manifestText = some lines₀)
    (h : Shape N (applyEffects (openEffects d₀ lines₀) d₀) img d) (hv : img.Valid N)
    (hread : readManifestText R d.manifestText = some lines) :
    ∃ groups, lines = lines₀ ++ openLines d₀ lines₀ ++ groupLines N groups ∧
      (groups = img.rotated ∨ groups = img.rotated ++ [img.current] ∧ img.current ≠ [] ∧ img.torn = []) := by
  rw [h.text, manifestText_open, List.append_assoc d₀.manifestText, ← renderAll_append] at hread
  rcases read_append_unfinished h₀ hv.line hread with ⟨hline, hlines⟩ | ⟨hline, hlines⟩
  · refine ⟨img.listed, by rw [hlines, List.append_assoc], ?_⟩
    rw [Image.listed]
    by_cases hs : img.tailSealed = true
    · have hwhole := hv.whole (.inl hs)
      exact .inr ⟨by rw [if_pos hs], hwhole.1, hwhole.2.2⟩
    · exact .inl (by rw [if_neg hs])
  · have hwhole := hv.whole (.inr hline)
    have hs : ¬ img.tailSealed = true := fun hs => hline (hv.once hs)
    refine ⟨img.rotated ++ [img.current], ?_, .inr ⟨rfl, hwhole.1, hwhole.2.2⟩⟩
    rw [hlines, Image.listed, if_neg hs, groupLines_concat, Image.part]
    simp only [List.append_assoc]

/-- `open` finds the tombstones of the `open` before. -/
theorem retiredIn_crashed {R : LineReader} {d₀ : Dir} {lines₀ lines : List ManifestLine}
    (h₀ : readManifestText R d₀.manifestText = some lines₀)
    (h : Shape N (applyEffects (openEffects d₀ lines₀) d₀) img d) (hv : img.Valid N)
    (hread : readManifestText R d.manifestText = some lines) : retiredIn lines = retiredIn lines₀ := by
  obtain ⟨groups, rfl, -⟩ := lines_crashed h₀ h hv hread
  rw [retiredIn_append, retiredIn_append, retiredIn_openLines, retiredIn_groupLines, List.append_nil,
    List.append_nil]

/-- The newest part, if the greatest incarnation is not retired. -/
theorem newest_of_files {lines : List ManifestLine} {files : List Bytes} {last : Bytes}
    (hzero : d.partData ⟨N, 0⟩ = none) (hfiles : ∀ i, d.partData ⟨N, i + 1⟩ = (files ++ [last])[i]?)
    (hle : ∀ seg ∈ d.listSegments, seg.incarnation ≤ N) (hN : N ∉ retiredIn lines) :
    newest (retained d lines) = some (⟨N, files.length + 1⟩, last) := by
  have hdata : ∀ part, (retained d lines).partData ⟨N, part⟩ = d.partData ⟨N, part⟩ := by
    intro part
    rw [partData_retained, if_neg hN]
  have hlast : (retained d lines).partData ⟨N, files.length + 1⟩ = some last := by
    rw [hdata, hfiles, List.getElem?_concat_length]
  refine newest_eq_some.mpr ⟨SortedMap.last_of_le ?_ fun seg hseg => ?_, hlast⟩
  · rw [← Dir.listSegments, mem_listSegments, hlast]
    rfl
  · rw [← Dir.listSegments, mem_listSegments, partData_retained] at hseg
    split at hseg
    · cases hseg
    · obtain ⟨inc, part⟩ := seg
      rcases (hle _ ((mem_listSegments d _).mpr hseg)).lt_or_eq with hlt | heq
      · exact Seg.le_iff.mpr (.inl hlt)
      · simp only at heq
        subst heq
        refine Seg.le_iff.mpr (.inr ⟨rfl, ?_⟩)
        rcases part with _ | i
        · exact Nat.zero_le _
        · rw [hfiles, isSome_getElem?, List.length_append] at hseg
          exact hseg

/-- The newest part is the active one of the incarnation that crashed. -/
theorem newest_crashed {lines : List ManifestLine} (h : Shape N base img d)
    (hbase : ∀ seg ∈ base.listSegments, seg.incarnation ≤ N) (hN : N ∉ retiredIn lines) :
    newest (retained d lines) = some (⟨N, img.part⟩, encodeAll img.current ++ img.torn) := by
  have hle : ∀ seg ∈ d.listSegments, seg.incarnation ≤ N := by
    intro seg hseg
    by_cases hinc : seg.incarnation = N
    · exact hinc.le
    · refine hbase seg ?_
      rw [mem_listSegments, Dir.partData, h.others seg hinc, ← Dir.partData, ← mem_listSegments] at hseg
      exact hseg
  have hnew := newest_of_files h.partData_zero h.partData_files hle hN
  rwa [List.length_map] at hnew

/-- The records of the parts after `open`: a part without records is gone. -/
theorem recovered_files {lines : List ManifestLine} {a : ℕ} (h : Shape N base img d) (hv : img.Valid N)
    (hbase : ∀ seg ∈ base.listSegments, seg.incarnation ≤ N) (hN : N ∉ retiredIn lines)
    (htail : CrashedTail a img.current img.torn) :
    ∃ groups : List (List Record), groups.flatten = img.records ∧
      (applyEffects (openEffects d lines) d).partData ⟨N, 0⟩ = none ∧
      ∀ i, (applyEffects (openEffects d lines) d).partData ⟨N, i + 1⟩ = (groups.map encodeAll)[i]? := by
  have hnew := newest_crashed h hbase hN
  have hlast := (newest_eq_some.mp hnew).1
  have hopened : N < openedIncarnation d lines := lt_nextIncarnation (List.mem_of_getLast? hlast)
  -- what is not there is not made
  have hnone : ∀ part, part = 0 ∨ img.part < part →
      (applyEffects (openEffects d lines) d).partData ⟨N, part⟩ = none := by
    intro part hp
    refine partData_applyEffects_none (fun hmem => ?_) ?_
    · have hseg := openEffects_create hmem
      rw [Seg.mk.injEq] at hseg
      exact hopened.ne hseg.1
    · rw [Dir.partData, h.absent part hp]
      rfl
  have hrot : ∀ i group, img.rotated[i]? = some group →
      (applyEffects (openEffects d lines) d).partData ⟨N, i + 1⟩ = some (encodeAll group) := by
    intro i group hi
    have hlt := (List.getElem?_eq_some_iff.mp hi).1
    rw [partData_open_older (h.partData_rotated hi) hN ?_, if_neg]
    · rintro ⟨-, hrem⟩
      exact hv.rotated group (List.mem_of_getElem? hi) (encodeAll_eq_nil.mp (olderFate_remove hrem))
    · rw [hlast, Ne, Option.some.injEq, Seg.mk.injEq]
      rintro ⟨-, heq⟩
      rw [Image.part] at heq
      omega
  have hcur := partData_open_newest hnew
  rw [htail.rewound] at hcur
  split at hcur
  · -- the active part had no record
    rename_i hrem
    have hcur0 : img.current = [] :=
      encodeAll_eq_nil.mp (List.append_eq_nil_iff.mp (tailFate_remove hrem.2)).1
    refine ⟨img.rotated, by rw [Image.records, hcur0, List.append_nil], hnone 0 (.inl rfl), fun i => ?_⟩
    rw [List.getElem?_map]
    rcases Nat.lt_trichotomy i img.rotated.length with hlt | rfl | hgt
    · rw [List.getElem?_eq_getElem hlt, hrot i _ (List.getElem?_eq_getElem hlt)]
      rfl
    · rw [List.getElem?_eq_none le_rfl]
      exact hcur
    · rw [List.getElem?_eq_none hgt.le, hnone (i + 1) (.inr (by rw [Image.part]; omega))]
      rfl
  · refine ⟨img.rotated ++ [img.current], by simp [Image.records], hnone 0 (.inl rfl), fun i => ?_⟩
    rw [List.getElem?_map]
    rcases Nat.lt_trichotomy i img.rotated.length with hlt | rfl | hgt
    · rw [List.getElem?_append_left hlt, List.getElem?_eq_getElem hlt,
        hrot i _ (List.getElem?_eq_getElem hlt)]
      rfl
    · rw [List.getElem?_concat_length]
      exact hcur
    · rw [List.getElem?_eq_none (by simp; omega), hnone (i + 1) (.inr (by rw [Image.part]; omega))]
      rfl

end Crashed

/-- A stream over parts that hold whole records. -/
theorem streamRecords_groups : ∀ {groups : List (List Record)} {a : ℕ}, (∀ r ∈ groups.flatten, r.Fits) →
    Numbered a groups.flatten → a + groups.flatten.length < 2 ^ 64 →
    streamRecords a (groups.map encodeAll) = .ok groups.flatten
  | [], _, _, _, _ => rfl
  | group :: groups, a, hfits, hnum, hlt => by
    rw [List.flatten_cons] at hfits hnum hlt ⊢
    rw [List.length_append] at hlt
    obtain ⟨hnum1, hnum2⟩ := numbered_append.mp hnum
    have hparse : parseRecords (some a) (encodeAll group) = (group, .cleanEof) := by
      rw [← List.append_nil (encodeAll group)]
      exact parseRecords_encodeAll readRecord_nil (fun r hr => hfits r (List.mem_append_left _ hr)) hnum1
        (by omega) fun _ => .inl rfl
    rw [List.map_cons, streamRecords_clean hparse,
      streamRecords_groups (fun r hr => hfits r (List.mem_append_right _ hr)) hnum2 (by omega)]

/-- The incarnation reads as these records, in batches of any sizes; one without
records may have no part at all. -/
def Readable (d : Dir) (N : ℕ) (rs : List Record) : Prop :=
  (∀ budgets, readIncarnation d N budgets = .ok rs) ∨ rs = [] ∧ d.incarnationSegs N = []

theorem readable_groups {d : Dir} {N : ℕ} {groups : List (List Record)} (hzero : d.partData ⟨N, 0⟩ = none)
    (hfiles : ∀ i, d.partData ⟨N, i + 1⟩ = (groups.map encodeAll)[i]?)
    (hfits : ∀ r ∈ groups.flatten, r.Fits) (hnum : Numbered 1 groups.flatten)
    (hlt : groups.flatten.length + 1 < 2 ^ 64) : Readable d N groups.flatten := by
  obtain ⟨hsegs, hdata⟩ := incarnation_files hzero hfiles
  rcases groups with _ | ⟨group, groups⟩
  · exact .inr ⟨rfl, hsegs⟩
  · refine .inl fun budgets => readIncarnation_eq (p := groups.length) ?_ ?_ hlt budgets
    · simpa using hsegs
    · rw [hdata]
      exact streamRecords_groups hfits hnum (by omega)

/-! ### The whole way -/

/-- **Crash recovery.** An incarnation starts on a directory at rest; its
appender runs, and the machine stops at any point. If `open` succeeds on what is
left, the incarnation reads as the first records that were published, as they
were published, with at least those that were acknowledged as durable. -/
theorem crash_recovery {R : LineReader} {d₀ : Dir} (hrest : d₀.AtRest) {es : List Effect} {j : OpenedJournal}
    (hopen : (openJournal R).run d₀ = (es, .ok j)) (maxPartBytes : ℕ) {as : List Action}
    {s : ShadowJournal}
    (hrun : Runs.run step (opened j.incarnation maxPartBytes (applyEffects es d₀)) as = some s)
    (cut : Seg → ℕ) (manifestCut : ℕ) {es' : List Effect} {j' : OpenedJournal}
    (hopen' : (openJournal R).run (s.disk.crash cut manifestCut) = (es', .ok j')) :
    ∃ k ≤ s.published.length, (∀ n, .durable n ∈ s.sent → n ≤ k) ∧
      Readable (applyEffects es' (s.disk.crash cut manifestCut)) j.incarnation
        ((s.published.map OrderedEvent.record).take k) := by
  have hinv : Inv j.incarnation (applyEffects es d₀) s :=
    Runs.run_invariant (fun h hstep => inv_step h hstep) hrun (inv_opened hopen maxPartBytes)
  obtain ⟨lines₀, hread₀, -, rfl, hN⟩ := openJournal_ok hopen
  obtain ⟨lines, hread, -, rfl, -⟩ := openJournal_ok hopen'
  obtain ⟨img, hcrash, hdur⟩ := hinv.crash (atRest_open hrest lines₀) cut manifestCut
  have hbase : ∀ seg ∈ (applyEffects (openEffects d₀ lines₀) d₀).listSegments,
      seg.incarnation ≤ j.incarnation := by
    intro seg hseg
    rw [hN]
    rcases lt_opened hseg with rfl | hlt
    · exact le_rfl
    · exact hlt.le
  have hretired : j.incarnation ∉ retiredIn lines := by
    rw [retiredIn_crashed hread₀ hcrash.shape hcrash.valid hread, hN]
    exact fun hmem => lt_irrefl _ (retired_lt_nextIncarnation hmem)
  obtain ⟨groups, hflat, hzero, hfiles⟩ :=
    recovered_files hcrash.shape hcrash.valid hbase hretired hcrash.tail
  have hreadable := readable_groups hzero hfiles (by rw [hflat]; exact hcrash.fits)
    (by rw [hflat]; exact hcrash.numbered) (by rw [hflat]; exact hcrash.bound)
  refine ⟨img.records.length, ?_, fun n hn => ?_, ?_⟩
  · simpa using hcrash.records.length_le
  · refine le_trans (hinv.1.durables.2 n ?_) hdur
    exact List.mem_filterMap.mpr ⟨.durable n, hn, rfl⟩
  · rw [hflat, List.prefix_iff_eq_take.mp hcrash.records] at hreadable
    exact hreadable

/-- A record is written and synced; the next one starts another part, and the
machine stops within its header. -/
def tornRun : List Action :=
  [.record .output [104, 105] 7, .receive, .effect, .effect, .finish, .timeout, .effect, .finish,
    .record .output [33, 34] 9, .receive, .effect, .effect, .effect, .effect, .effect, .effect, .effect]

theorem tornRun_opens : ∃ s es j',
    Runs.run step (opened 1 40 (applyEffects [.createPart ⟨1, 1⟩, .syncDir] Dir.empty)) tornRun = some s ∧
    (openJournal exactReader).run (s.disk.crash (fun _ => 10) 0) = (es, .ok j') ∧ .durable 1 ∈ s.sent := by
  have hrun : (Runs.run step (opened 1 40 (applyEffects [.createPart ⟨1, 1⟩, .syncDir] Dir.empty))
      tornRun).any (fun s => s.sent.contains (.durable 1) &&
        ((openJournal exactReader).run (s.disk.crash (fun _ => 10) 0)).2.toBool) = true := by
    decide +kernel
  obtain ⟨s, hs, hp⟩ := (Option.any_eq_true _ _).mp hrun
  rw [Bool.and_eq_true, List.contains_iff_mem] at hp
  rcases hopen : (openJournal exactReader).run (s.disk.crash (fun _ => 10) 0) with ⟨es, error | j'⟩
  · rw [hopen] at hp
    exact absurd hp.2 Bool.false_ne_true
  · exact ⟨s, es, j', hs, hopen, hp.1⟩

theorem crash_recovery_torn : ∃ s es j',
    Runs.run step (opened 1 40 (applyEffects [.createPart ⟨1, 1⟩, .syncDir] Dir.empty)) tornRun = some s ∧
    (openJournal exactReader).run (s.disk.crash (fun _ => 10) 0) = (es, .ok j') ∧ .durable 1 ∈ s.sent ∧
    ∃ k ≤ s.published.length, (∀ n, .durable n ∈ s.sent → n ≤ k) ∧
      Readable (applyEffects es (s.disk.crash (fun _ => 10) 0)) 1
        ((s.published.map OrderedEvent.record).take k) := by
  obtain ⟨s, es, j', hs, hopen, hsent⟩ := tornRun_opens
  exact ⟨s, es, j', hs, hopen, hsent, crash_recovery atRest_empty open_empty 40 hs (fun _ => 10) 0 hopen⟩

end Journal
end OpenRelay
