/-
# The checkpoint gate

`retain_before` never deletes past the newest checkpoint, because a replay can start
there (`session/journal/checkpoint.rs`). The gate is found by a walk over record
headers that stops at the first one of a checkpoint; a replay takes its anchors from
`checkpoint_anchors`, which wants the records in sequence, the checkpoint's payload
in full, and its offset (`Accepted`).

Every checkpoint that is accepted is seen by the walk (`hasCheckpoint_of_accepted`),
but not the other way round: a checkpoint that is being written, or was cut off, is
a gate as well. So retention leaves an accepted checkpoint behind exactly if there
is one between the horizon and the gate (`retention_gated_iff`).
-/
import OpenRelay.Journal.Checkpoint
import OpenRelay.Journal.Interrupted

namespace OpenRelay
namespace Journal

open Effects Effects.Prog LittleEndian

/-- The incarnation has a checkpoint that a replay can start from. -/
def Accepted (d : Dir) (N : ℕ) : Prop :=
  ∃ anchors, checkpointAnchors d N = .ok anchors ∧ anchors ≠ []

/-- One of the effects removes a part of the incarnation. -/
def Deleted (es : List Effect) (i : ℕ) : Prop := ∃ seg : Seg, seg.incarnation = i ∧ Effect.removePart seg ∈ es

/-- **The promise of retention.** What is deleted is older than an incarnation that
stays and has an accepted checkpoint; where there is none, nothing is deleted. -/
structure RetentionGated (R : LineReader) (d : Dir) (minIncarnation : ℕ) : Prop where
  covered : ∀ i, Deleted ((retainBefore R minIncarnation).run d).1 i →
    ∃ N ∈ listIncarnations d, i < N ∧ N ∉ tombstoned R d ∧
      ¬ Deleted ((retainBefore R minIncarnation).run d).1 N ∧ Accepted d N
  nothing : (∀ N ∈ listIncarnations d, N ∉ tombstoned R d → ¬ Accepted d N) →
    ((retainBefore R minIncarnation).run d).1 = []

/-! ### The two walks -/

section Walks

variable {part : ℕ} {file : Bytes}

/-- A part with an anchor has a checkpoint's header. -/
theorem scan_of_anchors : ∀ {turns turns' pos a : ℕ}, (file.drop pos).length ≤ turns' →
    (anchorsLoop part file turns pos a).1 ≠ [] → scanForCheckpoint turns' (file.drop pos) = true
  | 0, _, _, _, _, hne => absurd rfl hne
  | turns + 1, turns', pos, a, hlen, hne => by
    unfold anchorsLoop at hne
    simp only at hne
    by_cases hshort : (file.drop pos).length < headerLen
    · rw [if_pos hshort] at hne
      exact absurd rfl hne
    rw [if_neg hshort] at hne
    by_cases hmagic : (file.drop pos).take 4 ≠ recordMagic
    · rw [if_pos hmagic] at hne
      exact absurd rfl hne
    rw [if_neg hmagic] at hne
    by_cases hseq : leNat (field (file.drop pos) 12 8) ≠ a
    · rw [if_pos hseq] at hne
      exact absurd rfl hne
    rw [if_neg hseq] at hne
    by_cases hend : file.length < pos + headerLen + leNat (field (file.drop pos) 28 4)
    · rw [if_pos hend] at hne
      exact absurd rfl hne
    rw [if_neg hend] at hne
    obtain ⟨turns', rfl⟩ : ∃ k, turns' = k + 1 := by
      refine Nat.exists_eq_succ_of_ne_zero fun h0 => ?_
      rw [h0] at hlen
      exact hshort (lt_of_le_of_lt hlen (by decide))
    unfold scanForCheckpoint
    rw [if_neg hshort, if_neg hmagic]
    by_cases hkind : leNat (field (file.drop pos) 6 2) = RecordKind.checkpointRef.toU16
    · rw [if_pos hkind]
    · -- not a checkpoint: both go on behind its payload
      rw [if_neg fun h => hkind h.1] at hne
      rw [if_neg hkind, List.drop_drop]
      have hpos : pos + (headerLen + leNat (field (file.drop pos) 28 4)) =
          pos + headerLen + leNat (field (file.drop pos) 28 4) := (Nat.add_assoc _ _ _).symm
      rw [hpos]
      refine scan_of_anchors ?_ hne
      have hheader : 0 < headerLen := by decide
      rw [List.length_drop] at hlen ⊢
      omega

/-- The anchors of an incarnation are anchors of its parts. -/
theorem part_of_anchors : ∀ {files : List (ℕ × Bytes)} {a : ℕ}, anchorScan files a ≠ [] →
    ∃ p ∈ files, ∃ a', (anchorsLoop p.1 p.2 (p.2.length + 1) 0 a').1 ≠ []
  | [], _, h => absurd rfl h
  | (part, file) :: files, a, h => by
    unfold anchorScan at h
    by_cases hnil : (anchorsLoop part file (file.length + 1) 0 a).1 = []
    · rcases hloop : anchorsLoop part file (file.length + 1) 0 a with ⟨anchors, _ | next⟩
      · rw [hloop] at h hnil
        exact absurd hnil h
      · rw [hloop] at h hnil
        simp only at h hnil
        rw [hnil, List.nil_append] at h
        obtain ⟨p, hp, hfound⟩ := part_of_anchors h
        exact ⟨p, List.mem_cons_of_mem _ hp, hfound⟩
    · exact ⟨(part, file), List.mem_cons_self, a, hnil⟩

/-- **The walk for the gate sees every accepted checkpoint.** -/
theorem hasCheckpoint_of_accepted {d : Dir} {N : ℕ} (h : Accepted d N) : incarnationHasCheckpoint d N = true := by
  obtain ⟨anchors, hanchors, hne⟩ := h
  unfold checkpointAnchors at hanchors
  rcases hparts : incarnationParts d N with e | parts
  · rw [hparts] at hanchors
    cases hanchors
  · rw [hparts] at hanchors
    have hscan := Except.ok.inj hanchors
    rw [← hscan] at hne
    obtain ⟨p, hp, a, hloop⟩ := part_of_anchors hne
    obtain ⟨seg, hseg, rfl⟩ := List.mem_map.mp hp
    have hsegs : parts = d.incarnationSegs N := by
      unfold incarnationParts at hparts
      split_ifs at hparts
      exact (Except.ok.inj hparts).symm
    rw [incarnationHasCheckpoint, List.any_eq_true]
    refine ⟨seg, by rw [← hsegs]; exact hseg, ?_⟩
    have hlen : (((d.partData seg).getD []).drop 0).length ≤ ((d.partData seg).getD []).length := by rw [List.drop_zero]
    have := scan_of_anchors hlen hloop
    rwa [List.drop_zero] at this

end Walks

/-! ### What a sweep deletes -/

section Sweep

variable {d c : Dir} {i : ℕ}

theorem deleted_append {es es' : List Effect} : Deleted (es ++ es') i ↔ Deleted es i ∨ Deleted es' i := by
  constructor
  · rintro ⟨seg, hseg, hmem⟩
    exact (List.mem_append.mp hmem).imp (fun h => ⟨seg, hseg, h⟩) fun h => ⟨seg, hseg, h⟩
  · rintro (⟨seg, hseg, hmem⟩ | ⟨seg, hseg, hmem⟩)
    · exact ⟨seg, hseg, List.mem_append_left _ hmem⟩
    · exact ⟨seg, hseg, List.mem_append_right _ hmem⟩

/-- The deletion of one incarnation removes parts of it alone, and all of them. -/
theorem deleted_retireOne {j : ℕ} : Deleted (retireOne c j) i ↔ i = j ∧ c.incarnationSegs j ≠ [] := by
  constructor
  · rintro ⟨seg, rfl, hmem⟩
    rcases List.mem_append.mp hmem with hline | hpart
    · simp at hline
    · obtain ⟨seg', hseg', heq⟩ := List.mem_map.mp hpart
      cases heq
      rw [List.mem_reverse] at hseg'
      exact ⟨(mem_incarnationSegs.mp hseg').2, List.ne_nil_of_mem hseg'⟩
  · rintro ⟨rfl, hne⟩
    obtain ⟨seg, hseg⟩ := List.exists_mem_of_ne_nil _ hne
    refine ⟨seg, (mem_incarnationSegs.mp hseg).2, List.mem_append_right _ (List.mem_map.mpr ⟨seg, ?_, rfl⟩)⟩
    rw [List.mem_reverse]
    exact hseg

/-- It leaves the others alone. -/
theorem incarnationSegs_retireOne {j : ℕ} (hne : i ≠ j) :
    (applyEffects (retireOne c j) c).incarnationSegs i = c.incarnationSegs i := by
  have hline : (applyEffects (retireOne c j) c).incarnationSegs i =
      (applyEffects ((c.incarnationSegs j).reverse.map .removePart) (Effect.syncManifest.apply
        ((Effect.appendManifest (ManifestLine.retired ⟨j⟩).render).apply c))).incarnationSegs i := rfl
  rw [hline, incarnationSegs_removeParts]
  refine List.filter_eq_self.mpr fun seg hseg => decide_eq_true fun hmem => ?_
  rw [List.mem_reverse] at hmem
  exact hne ((mem_incarnationSegs.mp hseg).2.symm.trans (mem_incarnationSegs.mp hmem).2)

/-- **The deletions**: those of the list that are there. -/
theorem deleted_retireIncarnations : ∀ {js : List ℕ} {c : Dir},
    Deleted ((retireIncarnations js).run c).1 i ↔ i ∈ js ∧ c.incarnationSegs i ≠ []
  | [], c => by
    constructor
    · rintro ⟨seg, -, hmem⟩
      cases hmem
    · rintro ⟨hmem, -⟩
      cases hmem
  | j :: js, c => by
    have hrun : ((retireIncarnations (j :: js)).run c).1 =
        retireOne c j ++ ((retireIncarnations js).run (applyEffects (retireOne c j) c)).1 := by
      rw [retireIncarnations, bind_run (retireIncarnation_run j c)]
    rw [hrun, deleted_append, deleted_retireOne, deleted_retireIncarnations]
    by_cases hij : i = j
    · subst hij
      constructor
      · rintro (⟨-, hne⟩ | ⟨-, hne⟩)
        · exact ⟨List.mem_cons_self, hne⟩
        · -- what is left of it was there before
          refine ⟨List.mem_cons_self, fun hnil => hne ?_⟩
          have hnone : retireOne c i = [.appendManifest (ManifestLine.retired ⟨i⟩).render, .syncManifest] := by
            rw [retireOne, hnil]
            rfl
          rw [hnone]
          exact hnil
      · rintro ⟨-, hne⟩
        exact .inl ⟨rfl, hne⟩
    · rw [incarnationSegs_retireOne hij]
      constructor
      · rintro (⟨heq, -⟩ | ⟨hmem, hne⟩)
        · exact absurd heq hij
        · exact ⟨List.mem_cons_of_mem _ hmem, hne⟩
      · rintro ⟨hmem, hne⟩
        exact .inr ⟨(List.mem_cons.mp hmem).resolve_left hij, hne⟩

theorem mem_listIncarnations : i ∈ listIncarnations d → d.incarnationSegs i ≠ [] := by
  intro h
  obtain ⟨seg, hseg, rfl⟩ := List.mem_map.mp (mem_dedup h)
  refine List.ne_nil_of_mem (a := seg) ?_
  rw [Dir.incarnationSegs, List.mem_filter]
  exact ⟨hseg, decide_eq_true rfl⟩

theorem le_latest {N : ℕ} (hlast : (listIncarnations d).getLast? = some N) (h : i ∈ listIncarnations d) : i ≤ N := by
  obtain ⟨seg, hseg, rfl⟩ := List.mem_map.mp (mem_dedup h)
  rw [listIncarnations, getLast?_dedup, List.getLast?_map] at hlast
  obtain ⟨last, hlast', rfl⟩ := Option.map_eq_some_iff.mp hlast
  rcases Seg.le_iff.mp (SortedMap.le_of_last hlast' hseg) with hlt | ⟨heq, -⟩
  · exact hlt.le
  · exact heq.le

theorem dedup_sublist : ∀ l : List ℕ, (dedup l).Sublist l
  | [] => List.Sublist.refl _
  | [_] => List.Sublist.refl _
  | a :: b :: l => by
    unfold dedup
    by_cases hab : a = b
    · rw [if_pos hab]
      exact (dedup_sublist (b :: l)).cons a
    · rw [if_neg hab]
      exact (dedup_sublist (b :: l)).cons_cons a

/-- The incarnations are listed in ascending order. -/
theorem listIncarnations_ascending (d : Dir) : (listIncarnations d).Pairwise (· ≤ ·) := by
  refine List.Pairwise.sublist (dedup_sublist _) ?_
  rw [List.pairwise_map]
  refine d.parts.keys_pairwise.imp fun {seg seg'} hlt => ?_
  rcases Seg.lt_iff.mp hlt with h | ⟨h, -⟩
  · exact h.le
  · exact h.le

/-- The gate is the newest incarnation that the walk finds a checkpoint in. -/
theorem le_gate {gate N : ℕ} (hgate : latestCheckpointIncarnation d = some gate) (hN : N ∈ listIncarnations d)
    (hwalk : incarnationHasCheckpoint d N = true) : N ≤ gate := by
  obtain ⟨-, newer, older, hsplit, hnot⟩ := List.find?_eq_some_iff_append.mp hgate
  have hdesc : (listIncarnations d).reverse.Pairwise (· ≥ ·) := List.pairwise_reverse.mpr (listIncarnations_ascending d)
  rw [← List.mem_reverse, hsplit] at hN
  rw [hsplit] at hdesc
  rcases List.mem_append.mp hN with hnew | hold
  · have := hnot N hnew
    rw [hwalk] at this
    cases this
  · rcases List.mem_cons.mp hold with rfl | hold
    · exact le_rfl
    · exact (List.pairwise_cons.mp (List.pairwise_append.mp hdesc).2.1).1 N hold

/-- What a sweep takes on: the incarnations below the horizon without a tombstone. -/
theorem mem_toDelete_iff {gate minIncarnation : ℕ} {retired : List ℕ} (hgate : gate ∈ listIncarnations d) :
    i ∈ toDelete d (min minIncarnation gate) retired ↔
      i ∈ listIncarnations d ∧ i < min minIncarnation gate ∧ i ∉ retired := by
  rw [toDelete, List.mem_filter]
  refine and_congr_right fun hmem => ?_
  obtain ⟨N, hlast⟩ : ∃ N, (listIncarnations d).getLast? = some N :=
    ⟨_, List.getLast?_eq_some_getLast (List.ne_nil_of_mem hmem)⟩
  have hle := le_latest hlast hgate
  rw [hlast]
  constructor
  · intro h
    simp only [Bool.not_eq_true', Bool.or_eq_false_iff, decide_eq_false_iff_not, not_le] at h
    exact ⟨h.1.1, fun hret => by simp [hret] at h⟩
  · rintro ⟨hlt, hret⟩
    -- the latest is not below the horizon
    have hne : i ≠ N := by
      rintro rfl
      omega
    simp only [Bool.not_eq_true', Bool.or_eq_false_iff, decide_eq_false_iff_not, not_le]
    refine ⟨⟨hlt, fun heq => hne (Option.some.inj heq)⟩, ?_⟩
    simpa using hret

/-- **What a sweep deletes.** -/
theorem deleted_retainBefore (R : LineReader) (d : Dir) (minIncarnation i : ℕ) :
    Deleted ((retainBefore R minIncarnation).run d).1 i ↔
      ∃ gate, latestCheckpointIncarnation d = some gate ∧ (readManifestText R d.manifestText).isSome ∧
        i ∈ listIncarnations d ∧ i < min minIncarnation gate ∧ i ∉ tombstoned R d := by
  have hidle : ((retainBefore R minIncarnation).run d).1 = [] → ¬ Deleted ((retainBefore R minIncarnation).run d).1 i := by
    rintro hnil ⟨seg, -, hmem⟩
    rw [hnil] at hmem
    cases hmem
  rcases hgate : latestCheckpointIncarnation d with _ | gate
  · refine ⟨fun h => absurd h (hidle (retainBefore_idle (.inl hgate))), ?_⟩
    rintro ⟨gate, heq, -⟩
    cases heq
  rcases hread : readManifestText R d.manifestText with _ | lines
  · refine ⟨fun h => absurd h (hidle (retainBefore_idle (.inr hread))), ?_⟩
    rintro ⟨-, -, hsome, -⟩
    cases hsome
  have hmem : gate ∈ listIncarnations d := List.mem_reverse.mp (List.mem_of_find?_eq_some hgate)
  rw [retainBefore_sweep hgate hread, deleted_append, deleted_retireIncarnations, mem_toDelete_iff hmem]
  constructor
  · rintro (⟨⟨hi, hlt, hret⟩, -⟩ | ⟨seg, -, hsync⟩)
    · exact ⟨gate, rfl, rfl, hi, hlt, hret⟩
    · -- a sync of the directory removes nothing
      split_ifs at hsync
      · cases hsync
      · cases List.mem_singleton.mp hsync
  · rintro ⟨gate', heq, -, hi, hlt, hret⟩
    cases heq
    exact .inl ⟨⟨hi, hlt, hret⟩, mem_listIncarnations hi⟩

/-- A sweep that deletes nothing does nothing. -/
theorem retainBefore_nil {R : LineReader} {minIncarnation : ℕ}
    (h : ∀ i, ¬ Deleted ((retainBefore R minIncarnation).run d).1 i) :
    ((retainBefore R minIncarnation).run d).1 = [] := by
  rcases hgate : latestCheckpointIncarnation d with _ | gate
  · exact retainBefore_idle (.inl hgate)
  rcases hread : readManifestText R d.manifestText with _ | lines
  · exact retainBefore_idle (.inr hread)
  have hmem : gate ∈ listIncarnations d := List.mem_reverse.mp (List.mem_of_find?_eq_some hgate)
  have hnil : toDelete d (min minIncarnation gate) (tombstoned R d) = [] := by
    refine List.eq_nil_iff_forall_not_mem.mpr fun i hi => ?_
    obtain ⟨hlist, hlt, hret⟩ := (mem_toDelete_iff hmem).mp hi
    refine h i ((deleted_retainBefore R d minIncarnation i).mpr ⟨gate, hgate, ?_, hlist, hlt, hret⟩)
    rw [hread]
    rfl
  rw [retainBefore_sweep hgate hread, hnil]
  rfl

end Sweep

/-! ### The gate -/

/-- **When retention is gated.** Below the horizon, which is the threshold or the gate
if that is older, every incarnation has a tombstone already; or from the horizon on
there is an incarnation without one whose checkpoint is accepted. -/
theorem retention_gated_iff (R : LineReader) (d : Dir) (minIncarnation : ℕ) :
    RetentionGated R d minIncarnation ↔
      ∀ gate, latestCheckpointIncarnation d = some gate → (readManifestText R d.manifestText).isSome →
        (∀ i ∈ listIncarnations d, i < min minIncarnation gate → i ∈ tombstoned R d) ∨
        ∃ N ∈ listIncarnations d, min minIncarnation gate ≤ N ∧ N ≤ gate ∧ N ∉ tombstoned R d ∧ Accepted d N := by
  constructor
  · intro h gate hgate hread
    by_cases hbelow : ∀ i ∈ listIncarnations d, i < min minIncarnation gate → i ∈ tombstoned R d
    · exact .inl hbelow
    · push Not at hbelow
      obtain ⟨i, hi, hlt, htomb⟩ := hbelow
      obtain ⟨N, hN, -, hNtomb, hstays, hacc⟩ :=
        h.covered i ((deleted_retainBefore R d minIncarnation i).mpr ⟨gate, hgate, hread, hi, hlt, htomb⟩)
      refine .inr ⟨N, hN, not_lt.mp fun hltN => ?_, ?_, hNtomb, hacc⟩
      · exact hstays ((deleted_retainBefore R d minIncarnation N).mpr ⟨gate, hgate, hread, hN, hltN, hNtomb⟩)
      · exact le_gate hgate hN (hasCheckpoint_of_accepted hacc)
  · intro h
    have hcovered : ∀ i, Deleted ((retainBefore R minIncarnation).run d).1 i →
        ∃ N ∈ listIncarnations d, i < N ∧ N ∉ tombstoned R d ∧
          ¬ Deleted ((retainBefore R minIncarnation).run d).1 N ∧ Accepted d N := by
      intro i hdel
      obtain ⟨gate, hgate, hread, hi, hlt, htomb⟩ := (deleted_retainBefore R d minIncarnation i).mp hdel
      rcases h gate hgate hread with hbelow | ⟨N, hN, hle, -, hNtomb, hacc⟩
      · exact absurd (hbelow i hi hlt) htomb
      · refine ⟨N, hN, lt_of_lt_of_le hlt hle, hNtomb, fun hdelN => ?_, hacc⟩
        obtain ⟨gate', hgate', -, -, hltN, -⟩ := (deleted_retainBefore R d minIncarnation N).mp hdelN
        rw [hgate] at hgate'
        cases hgate'
        omega
    refine ⟨hcovered, fun hnone => retainBefore_nil fun i hdel => ?_⟩
    obtain ⟨N, hN, -, hNtomb, -, hacc⟩ := hcovered i hdel
    exact hnone N hN hNtomb hacc

/-- An incarnation with a record, and one whose only record is a checkpoint that was
cut off within its payload. -/
def cutCheckpoint : Dir :=
  applyEffects [.createPart ⟨1, 1⟩, .writePart ⟨1, 1⟩ (Record.encode ⟨.output, 1, 0, [65]⟩), .createPart ⟨2, 1⟩,
    .writePart ⟨2, 1⟩ ((Record.encode ⟨.checkpointRef, 1, 0,
      encodeCheckpoint ⟨24, 80, (1, 1), false, false, false, 1, [72]⟩⟩).take 40)] Dir.empty

/-- The older incarnation is deleted, and no checkpoint is left to start from. -/
theorem cut_checkpoint_is_a_gate :
    Deleted ((retainBefore exactReader 9).run cutCheckpoint).1 1 ∧
      (∀ N ∈ listIncarnations cutCheckpoint, ¬ Accepted cutCheckpoint N) ∧
      ¬ RetentionGated exactReader cutCheckpoint 9 := by
  have hdel : Deleted ((retainBefore exactReader 9).run cutCheckpoint).1 1 := by
    refine ⟨⟨1, 1⟩, rfl, ?_⟩
    decide +kernel
  have hnone : ∀ N ∈ listIncarnations cutCheckpoint, ¬ Accepted cutCheckpoint N := by
    have hempty : ∀ N ∈ listIncarnations cutCheckpoint, checkpointAnchors cutCheckpoint N = .ok [] := by decide +kernel
    rintro N hN ⟨anchors, hanchors, hne⟩
    rw [hempty N hN] at hanchors
    cases hanchors
    exact hne rfl
  refine ⟨hdel, hnone, fun h => ?_⟩
  obtain ⟨N, hN, -, -, -, hacc⟩ := h.covered 1 hdel
  exact hnone N hN hacc

end Journal
end OpenRelay
