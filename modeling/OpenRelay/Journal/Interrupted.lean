/-
# Retention interrupted

`retain_before` can be stopped between any two of its effects
(`session/journal/checkpoint.rs`). Each incarnation it deletes is tombstoned
before its first part goes, and goes from its newest part on: whatever the
directory looks like then, an incarnation is as it was or tombstoned, and has
the first of its parts left (`Swept`). The next `open` finishes the deletion,
and `verify_manifest` passes the tombstoned parts over.

A line of the manifest that is being appended is there or is not; lines before
it ended where they should.

Key theorem: `sweep_safe`.
-/
import OpenRelay.Journal.Recovery
import OpenRelay.Journal.Retention
import OpenRelay.Journal.Verify

namespace OpenRelay
namespace Journal

open Effects Effects.Prog

/-! ### Stopping -/

/-- The incarnations whose deletion the manifest records. -/
def tombstoned (R : LineReader) (d : Dir) : List ℕ :=
  retiredIn ((readManifestText R d.manifestText).getD [])

def tombstoneLines (incarnations : List ℕ) : List ManifestLine := incarnations.map fun i => .retired ⟨i⟩

/-- What was appended to the manifest since it was last synced. -/
def Dir.unsynced (d : Dir) : Bytes := (d.manifest.map File.pending).getD []

/-- The machine stops; of the manifest all that was appended is kept, or what was synced alone. -/
def Dir.stop (d : Dir) (cut : Seg → ℕ) (kept : Bool) : Dir :=
  d.crash cut (if kept then d.unsynced.length else 0)

@[simp] theorem retiredIn_tombstoneLines (is : List ℕ) : retiredIn (tombstoneLines is) = is := by
  induction is with
  | nil => rfl
  | cons i is ih => exact congrArg (i :: ·) ih

theorem tombstoneLines_append (is js : List ℕ) : tombstoneLines (is ++ js) = tombstoneLines is ++ tombstoneLines js :=
  List.map_append

theorem manifestText_eq (d : Dir) : d.manifestText = d.manifestDurable ++ d.unsynced := by
  rcases hm : d.manifest with _ | f <;> simp [Dir.manifestText, Dir.manifestDurable, Dir.unsynced, hm, File.data]

theorem manifestText_stop (d : Dir) (cut : Seg → ℕ) (kept : Bool) :
    (d.stop cut kept).manifestText = d.manifestDurable ++ if kept then d.unsynced else [] := by
  rcases hm : d.manifest with _ | f
  · simp [Dir.stop, Dir.crash, Dir.manifestText, Dir.manifestDurable, Dir.unsynced, hm]
  · cases kept <;> simp [Dir.stop, Dir.crash, Dir.manifestText, Dir.manifestDurable, Dir.unsynced, hm]

theorem get?_stop (d : Dir) (cut : Seg → ℕ) (kept : Bool) (seg : Seg) :
    (d.stop cut kept).parts.get? seg = (d.parts.get? seg).map fun f => f.crash (cut seg) :=
  Dir.crash_get? d cut _ seg

theorem incarnationSegs_stop (d : Dir) (cut : Seg → ℕ) (kept : Bool) (i : ℕ) :
    (d.stop cut kept).incarnationSegs i = d.incarnationSegs i := by
  rw [Dir.incarnationSegs, Dir.stop, Dir.crash_listSegments, Dir.incarnationSegs]

/-- Every line of the manifest so far was appended whole, and is synced. -/
structure WholeManifest (d : Dir) : Prop where
  boundary : AtBoundary d.manifestText
  synced : d.unsynced = []

/-! ### What a sweep has done so far -/

/-- From `d`, the incarnations `is` have been tombstoned, and the line that tombstones those of
`pending` is not synced yet. -/
structure Swept (d c : Dir) (is pending : List ℕ) : Prop where
  front : ∀ i, c.incarnationSegs i <+: d.incarnationSegs i
  parts : ∀ seg ∈ c.listSegments, c.parts.get? seg = d.parts.get? seg
  others : ∀ i ∉ is, c.incarnationSegs i = d.incarnationSegs i
  durable : c.manifestDurable = d.manifestText ++ renderAll (tombstoneLines is)
  unsynced : c.unsynced = renderAll (tombstoneLines pending)

section Sweeping

variable {d c : Dir} {is pending : List ℕ}

theorem swept_refl (hrest : d.unsynced = []) : Swept d d [] [] := by
  refine ⟨fun _ => List.prefix_rfl, fun _ _ => rfl, fun _ _ => rfl, ?_, hrest⟩
  have htext := manifestText_eq d
  rw [hrest, List.append_nil] at htext
  rw [htext]
  exact (List.append_nil _).symm

theorem Swept.append (h : Swept d c is []) (i : ℕ) :
    Swept d ((Effect.appendManifest (ManifestLine.retired ⟨i⟩).render).apply c) is [i] := by
  refine ⟨h.front, h.parts, h.others, (manifestDurable_apply (by simp) c).trans h.durable, ?_⟩
  have hunsynced := h.unsynced
  have hline : renderAll (tombstoneLines [i]) = (ManifestLine.retired ⟨i⟩).render := by
    simp [tombstoneLines, renderAll, Lines.renderLines_cons, ManifestLine.render]
  rw [hline]
  rcases hm : c.manifest with _ | f
  · simp [Dir.unsynced, Effect.apply, hm, File.write, File.empty]
  · have hpending : f.pending = [] := by
      simpa [Dir.unsynced, hm, tombstoneLines, renderAll] using hunsynced
    simp [Dir.unsynced, Effect.apply, hm, File.write, hpending]

theorem Swept.sync (h : Swept d c is pending) : Swept d (Effect.syncManifest.apply c) (is ++ pending) [] := by
  refine ⟨h.front, h.parts, fun i hi => h.others i fun hmem => hi (List.mem_append_left _ hmem), ?_, ?_⟩
  · have hall : (Effect.syncManifest.apply c).manifestDurable = c.manifestText := by
      rcases hm : c.manifest with _ | f <;>
        simp [Dir.manifestDurable, Dir.manifestText, Effect.apply, hm, File.sync]
    rw [hall, manifestText_eq, h.durable, h.unsynced, tombstoneLines_append, renderAll_append, List.append_assoc]
  · rcases hm : c.manifest with _ | f <;> simp [Dir.unsynced, Effect.apply, hm, File.sync, tombstoneLines, renderAll]

theorem manifest_removeParts : ∀ (segs : List Seg) (c : Dir),
    (applyEffects (segs.map .removePart) c).manifest = c.manifest
  | [], _ => rfl
  | _ :: segs, c => by
    rw [List.map_cons, applyEffects_cons, manifest_removeParts segs]
    rfl

theorem incarnationSegs_removeParts (segs : List Seg) (c : Dir) (i : ℕ) :
    (applyEffects (segs.map .removePart) c).incarnationSegs i = (c.incarnationSegs i).filter (· ∉ segs) := by
  refine SortedMap.eq_of_ascending ((SortedMap.keys_pairwise _).filter _)
    (((SortedMap.keys_pairwise _).filter _).filter _) fun seg => ?_
  rw [mem_incarnationSegs, applyEffects_removeParts, List.mem_filter, mem_incarnationSegs]
  by_cases hseg : seg ∈ segs
  · simp [hseg]
  · simp [hseg]

/-- Without the newest of its parts an incarnation has the first of them left. -/
theorem filter_not_mem_reverse_take {α : Type} [DecidableEq α] {l : List α} (hnodup : l.Nodup) (k : ℕ) :
    l.filter (· ∉ l.reverse.take k) = l.take (l.length - k) := by
  have hsplit := List.take_append_drop (l.length - k) l
  have hmem : ∀ a, a ∈ l.reverse.take k ↔ a ∈ l.drop (l.length - k) := by
    intro a
    rw [List.take_reverse, List.mem_reverse]
  have hdisjoint : ∀ a ∈ l.take (l.length - k), a ∉ l.drop (l.length - k) := by
    intro a ha hd
    rw [← hsplit] at hnodup
    exact (List.nodup_append.mp hnodup).2.2 a ha a hd rfl
  calc l.filter (· ∉ l.reverse.take k) = l.filter (· ∉ l.drop (l.length - k)) := by
        refine List.filter_congr fun a _ => ?_
        rw [decide_eq_decide, hmem]
    _ = (l.take (l.length - k) ++ l.drop (l.length - k)).filter (· ∉ l.drop (l.length - k)) := by rw [hsplit]
    _ = l.take (l.length - k) := by
        rw [List.filter_append, List.filter_eq_self.mpr (fun a ha => by simpa using hdisjoint a ha),
          List.filter_eq_nil_iff.mpr (fun a ha => by simpa using ha), List.append_nil]

theorem Swept.remove (h : Swept d c is []) {i : ℕ} (hi : i ∈ is) (k : ℕ) :
    Swept d (applyEffects (((c.incarnationSegs i).reverse.take k).map .removePart) c) is [] := by
  have hnodup : (c.incarnationSegs i).Nodup := (c.parts.keys_pairwise.imp ne_of_lt).filter _
  have hmanifest := manifest_removeParts ((c.incarnationSegs i).reverse.take k) c
  have hsegs : ∀ j, j ≠ i → ∀ seg ∈ c.incarnationSegs j, seg ∉ (c.incarnationSegs i).reverse.take k := by
    intro j hj seg hseg htake
    have hmem := List.mem_reverse.mp (List.mem_of_mem_take htake)
    exact hj ((mem_incarnationSegs.mp hseg).2.symm.trans (mem_incarnationSegs.mp hmem).2)
  have hkeep : ∀ j, j ≠ i → (applyEffects (((c.incarnationSegs i).reverse.take k).map .removePart) c).incarnationSegs j =
      c.incarnationSegs j := by
    intro j hj
    rw [incarnationSegs_removeParts]
    exact List.filter_eq_self.mpr fun seg hseg => by simpa using hsegs j hj seg hseg
  refine ⟨fun j => ?_, fun seg hseg => ?_, fun j hj => ?_, ?_, ?_⟩
  · by_cases hj : j = i
    · subst hj
      rw [incarnationSegs_removeParts, filter_not_mem_reverse_take hnodup]
      exact (List.take_prefix _ _).trans (h.front j)
    · rw [hkeep j hj]
      exact h.front j
  · rw [Dir.listSegments, SortedMap.mem_keys, applyEffects_removeParts] at hseg
    rw [applyEffects_removeParts]
    split_ifs at hseg ⊢ with hgone
    · cases hseg
    · refine h.parts seg ?_
      rwa [Dir.listSegments, SortedMap.mem_keys]
  · rw [hkeep j fun heq => hj (heq ▸ hi)]
    exact h.others j hj
  · rw [Dir.manifestDurable, hmanifest]
    exact h.durable
  · rw [Dir.unsynced, hmanifest]
    exact h.unsynced

/-- A beginning of two lists in a row is one of the first, or the first and a beginning of the second. -/
theorem prefix_append_cases {α : Type} {l l₁ l₂ : List α} (h : l <+: l₁ ++ l₂) :
    l <+: l₁ ∨ ∃ m, l = l₁ ++ m ∧ m <+: l₂ := by
  rcases List.prefix_or_prefix_of_prefix h (List.prefix_append l₁ l₂) with h' | ⟨m, rfl⟩
  · exact .inl h'
  · exact .inr ⟨m, rfl, (List.prefix_append_right_inj l₁).mp h⟩

/-- The effects of deleting one incarnation. -/
def retireOne (c : Dir) (i : ℕ) : List Effect :=
  [.appendManifest (ManifestLine.retired ⟨i⟩).render, .syncManifest] ++
    (c.incarnationSegs i).reverse.map .removePart

theorem retireIncarnation_run (i : ℕ) (c : Dir) : (retireIncarnation i).run c = (retireOne c i, .ok ()) := by
  have hline : (appendManifestLine (.retired ⟨i⟩)).run c =
      ([.appendManifest (ManifestLine.retired ⟨i⟩).render, .syncManifest], .ok ()) := rfl
  rw [retireIncarnation, bind_run hline, bind_of_read (get_run _), removeParts_run]
  rfl

theorem Swept.retireOne (h : Swept d c is []) (i : ℕ) :
    Swept d (applyEffects (retireOne c i) c) (is ++ [i]) [] ∧
      ∀ es, es <+: Journal.retireOne c i → ∃ is' pending, Swept d (applyEffects es c) is' pending ∧
        ∀ j ∈ is', j ∈ is ++ [i] := by
  -- the parts of the incarnation do not change while the line is appended
  have hremoved : ∀ k, Swept d (applyEffects (((c.incarnationSegs i).reverse.take k).map .removePart)
      (Effect.syncManifest.apply ((Effect.appendManifest (ManifestLine.retired ⟨i⟩).render).apply c))) (is ++ [i]) [] :=
    fun k => (h.append i).sync.remove (List.mem_append_right is (List.mem_singleton_self i)) k
  refine ⟨?_, fun es hes => ?_⟩
  · have hall := hremoved (c.incarnationSegs i).reverse.length
    rwa [List.take_length] at hall
  · have hkept : ∀ j ∈ is, j ∈ is ++ [i] := fun j hj => List.mem_append_left _ hj
    rcases prefix_append_cases hes with hes | ⟨rest, rfl, hrest⟩
    · rcases List.prefix_cons_iff.mp hes with rfl | ⟨t, rfl, ht⟩
      · exact ⟨is, [], h, hkept⟩
      · rcases List.prefix_cons_iff.mp ht with rfl | ⟨t', rfl, ht'⟩
        · exact ⟨is, [i], h.append i, hkept⟩
        · rw [List.prefix_nil.mp ht']
          exact ⟨is ++ [i], [], (h.append i).sync, fun _ => id⟩
    · rw [List.prefix_iff_eq_take.mp hrest, ← List.map_take]
      exact ⟨is ++ [i], [], hremoved _, fun _ => id⟩

theorem retireIncarnations_ok : ∀ (js : List ℕ) (c : Dir),
    (retireIncarnations js).run c = (((retireIncarnations js).run c).1, .ok ())
  | [], _ => rfl
  | i :: js, c => by
    have ih := retireIncarnations_ok js (applyEffects (Journal.retireOne c i) c)
    rw [retireIncarnations, bind_run (retireIncarnation_run i c), ih]

theorem retireIncarnations_swept : ∀ (js : List ℕ) {c : Dir} {is : List ℕ}, Swept d c is [] →
    Swept d (applyEffects ((retireIncarnations js).run c).1 c) (is ++ js) [] ∧
      ∀ es, es <+: ((retireIncarnations js).run c).1 → ∃ is' pending, Swept d (applyEffects es c) is' pending ∧
        ∀ j ∈ is', j ∈ is ++ js
  | [], c, is, h => by
    refine ⟨(List.append_nil is).symm ▸ h, fun es hes => ?_⟩
    rw [List.prefix_nil.mp hes]
    exact ⟨is, [], h, fun j hj => List.mem_append_left _ hj⟩
  | i :: js, c, is, h => by
    obtain ⟨hone, hfront⟩ := h.retireOne i
    obtain ⟨hall, hprefix⟩ := retireIncarnations_swept js hone
    have hrun : (retireIncarnations (i :: js)).run c =
        (Journal.retireOne c i ++ ((retireIncarnations js).run (applyEffects (Journal.retireOne c i) c)).1,
          ((retireIncarnations js).run (applyEffects (Journal.retireOne c i) c)).2) := by
      rw [retireIncarnations, bind_run (retireIncarnation_run i c)]
    have happend : is ++ i :: js = is ++ [i] ++ js := by simp
    rw [hrun, happend]
    refine ⟨?_, fun es hes => ?_⟩
    · rw [applyEffects_append]
      exact hall
    · rcases prefix_append_cases hes with hes | ⟨rest, rfl, hrest⟩
      · obtain ⟨is', pending, hswept, hmem⟩ := hfront es hes
        exact ⟨is', pending, hswept, fun j hj => List.mem_append_left _ (hmem j hj)⟩
      · rw [applyEffects_append]
        exact hprefix rest hrest

/-- An incarnation that is deleted is not the latest. -/
theorem ne_latest_of_mem_toDelete {minIncarnation i : ℕ} {retired : List ℕ}
    (h : i ∈ toDelete d minIncarnation retired) : some i ≠ (listIncarnations d).getLast? := by
  intro heq
  have hkeep := (List.mem_filter.mp h).2
  simp [heq] at hkeep

/-- A sweep without a gate, or that cannot read the manifest, does nothing. -/
theorem retainBefore_idle {R : LineReader} {minIncarnation : ℕ}
    (h : latestCheckpointIncarnation d = none ∨ readManifestText R d.manifestText = none) :
    ((retainBefore R minIncarnation).run d).1 = [] := by
  rw [retainBefore, bind_of_read (get_run d)]
  rcases hgate : latestCheckpointIncarnation d with _ | gate
  · rfl
  have hread := h.resolve_left (by rw [hgate]; exact Option.some_ne_none gate)
  have hretired : (retiredIncarnations R).run d = ([], .error .malformedManifest) := by
    rw [retiredIncarnations, readManifestLines, bind_of_error]
    rw [bind_of_read (get_run d), hread]
    rfl
  simp only [bind_of_error hretired]

/-- The effects of a sweep: those of deleting what is below the horizon, and a sync of the directory. -/
theorem retainBefore_sweep {R : LineReader} {minIncarnation gate : ℕ} {lines : List ManifestLine}
    (hgate : latestCheckpointIncarnation d = some gate) (hread : readManifestText R d.manifestText = some lines) :
    ((retainBefore R minIncarnation).run d).1 =
      ((retireIncarnations (toDelete d (min minIncarnation gate) (tombstoned R d))).run d).1 ++
        if toDelete d (min minIncarnation gate) (tombstoned R d) = [] then [] else [.syncDir] := by
  have htomb : tombstoned R d = retiredIn lines := by rw [tombstoned, hread, Option.getD_some]
  have hretired : (retiredIncarnations R).run d = ([], .ok (tombstoned R d)) := by
    rw [retiredIncarnations, readManifestLines, bind_of_read (a := lines)]
    · rw [htomb]
      rfl
    · rw [bind_of_read (get_run d), hread]
      rfl
  rw [retainBefore, bind_of_read (get_run d), hgate]
  simp only
  rw [bind_of_read hretired, bind_of_ok (retireIncarnations_ok _ d)]
  by_cases hnil : toDelete d (min minIncarnation gate) (tombstoned R d) = []
  · simp only [hnil, if_true]
    rfl
  · simp only [hnil, if_false]
    rfl

/-- The effects of a sweep: none, or those of deleting some incarnations that are not the latest, and
a sync of the directory. -/
theorem retainBefore_run (R : LineReader) (minIncarnation : ℕ) (d : Dir) :
    ((retainBefore R minIncarnation).run d).1 = [] ∨ ∃ js tail, (readManifestText R d.manifestText).isSome ∧
      (∀ i ∈ js, some i ≠ (listIncarnations d).getLast?) ∧ tail <+: [.syncDir] ∧
      ((retainBefore R minIncarnation).run d).1 = ((retireIncarnations js).run d).1 ++ tail := by
  rcases hgate : latestCheckpointIncarnation d with _ | gate
  · exact .inl (retainBefore_idle (.inl hgate))
  rcases hread : readManifestText R d.manifestText with _ | lines
  · exact .inl (retainBefore_idle (.inr hread))
  refine .inr ⟨_, _, rfl, fun i => ne_latest_of_mem_toDelete, ?_, retainBefore_sweep hgate hread⟩
  by_cases hnil : toDelete d (min minIncarnation gate) (tombstoned R d) = []
  · rw [if_pos hnil]
    exact List.nil_prefix
  · rw [if_neg hnil]

/-- **What a sweep leaves wherever it is stopped.** Some of the incarnations are tombstoned, never
the latest; every other one has all its parts. -/
theorem retainBefore_swept {R : LineReader} {minIncarnation : ℕ} (hrest : d.unsynced = []) {es : List Effect}
    (hes : es <+: ((retainBefore R minIncarnation).run d).1) :
    ∃ is pending, Swept d (applyEffects es d) is pending ∧
      (∀ i ∈ is, some i ≠ (listIncarnations d).getLast?) ∧
      ((readManifestText R d.manifestText).isSome ∨ is = []) := by
  have hrefl := swept_refl hrest
  rcases retainBefore_run R minIncarnation d with hnil | ⟨js, tail, hread, hlatest, htail, hrun⟩
  · rw [hnil] at hes
    rw [List.prefix_nil.mp hes]
    exact ⟨[], [], hrefl, nofun, .inr rfl⟩
  · obtain ⟨hall, hprefix⟩ := retireIncarnations_swept js hrefl
    rw [hrun] at hes
    rcases prefix_append_cases hes with hes | ⟨rest, rfl, hrest'⟩
    · obtain ⟨is, pending, hswept, hmem⟩ := hprefix es hes
      exact ⟨is, pending, hswept, fun i hi => hlatest i (hmem i hi), .inl hread⟩
    · -- a sync of the directory changes nothing
      have hsame : applyEffects rest (applyEffects ((retireIncarnations js).run d).1 d) =
          applyEffects ((retireIncarnations js).run d).1 d := by
        rcases List.prefix_cons_iff.mp (hrest'.trans htail) with rfl | ⟨t, rfl, ht⟩
        · rfl
        · rw [List.prefix_nil.mp ht]
          rfl
      rw [applyEffects_append, hsame]
      exact ⟨js, [], hall, hlatest, .inl hread⟩

end Sweeping

/-! ### The journal after the stop -/

section Stopped

variable {R : LineReader} {d c : Dir} {is pending : List ℕ} (cut : Seg → ℕ) (kept : Bool)

/-- The manifest has the tombstones after the lines it had. -/
theorem Swept.manifestText_stop (h : Swept d c is pending) :
    ∃ new, (c.stop cut kept).manifestText = d.manifestText ++ renderAll (tombstoneLines (is ++ new)) := by
  cases kept with
  | false =>
    refine ⟨[], ?_⟩
    rw [Journal.manifestText_stop, h.durable, if_neg (by simp), List.append_nil, List.append_nil]
  | true =>
    refine ⟨pending, ?_⟩
    rw [Journal.manifestText_stop, h.durable, if_pos rfl, h.unsynced, tombstoneLines_append, renderAll_append,
      List.append_assoc]

theorem Swept.tombstoned_stop (h : Swept d c is pending) (hb : AtBoundary d.manifestText)
    (hread : (readManifestText R d.manifestText).isSome) {i : ℕ} (hi : i ∈ is) :
    i ∈ tombstoned R (c.stop cut kept) := by
  obtain ⟨lines, hlines⟩ := Option.isSome_iff_exists.mp hread
  obtain ⟨new, htext⟩ := h.manifestText_stop cut kept
  rw [tombstoned, htext, read_append_lines hb hlines, Option.getD_some, retiredIn_append, retiredIn_tombstoneLines]
  exact List.mem_append_right _ (List.mem_append_left _ hi)

/-- A part that is not of a tombstoned incarnation is as the stop alone would have left it. -/
theorem Swept.get?_stop_of_not_mem (h : Swept d c is pending) {seg : Seg} (hseg : seg.incarnation ∉ is) :
    (c.stop cut kept).parts.get? seg = (d.stop cut kept).parts.get? seg := by
  rw [get?_stop, get?_stop]
  have hsame : c.parts.get? seg = d.parts.get? seg := by
    by_cases hmem : seg ∈ c.listSegments
    · exact h.parts seg hmem
    · have hd : seg ∉ d.incarnationSegs seg.incarnation := by
        rw [← h.others _ hseg, Dir.incarnationSegs, List.mem_filter]
        exact fun hin => hmem hin.1
      rw [mem_incarnationSegs, and_iff_left rfl, Option.not_isSome_iff_eq_none] at hd
      rw [Dir.listSegments, ← SortedMap.get?_eq_none] at hmem
      rw [hmem, hd]
  rw [hsame]

end Stopped

section Reopened

variable {R : LineReader} {d : Dir}

/-- **`open` completes a retention.** No part of a tombstoned incarnation is left. -/
theorem not_tombstoned_opened {es : List Effect} {j : OpenedJournal} (h : (openJournal R).run d = (es, .ok j))
    {seg : Seg} (hseg : seg ∈ (applyEffects es d).listSegments) : seg.incarnation ∉ tombstoned R d := by
  obtain ⟨lines, hlines, -, rfl, -⟩ := openJournal_ok h
  rw [tombstoned, hlines, Option.getD_some]
  intro hretired
  rw [applyEffects_open] at hseg
  by_cases hnew : seg = ⟨openedIncarnation d lines, 1⟩
  · subst hnew
    exact (retired_lt_nextIncarnation hretired).ne rfl
  · have hne : (Effect.createPart ⟨openedIncarnation d lines, 1⟩).part? ≠ some seg :=
      fun heq => hnew (Option.some.inj heq).symm
    rw [mem_listSegments, partData_apply_of_ne hne, ← mem_listSegments] at hseg
    have hmem := mem_listSegments_recovered hseg
    rw [mem_listSegments, partData_retained, if_pos hretired] at hmem
    cases hmem

/-- What is tombstoned stays tombstoned over an `open`. -/
theorem tombstoned_opened (hb : AtBoundary d.manifestText) {es : List Effect} {j : OpenedJournal}
    (h : (openJournal R).run d = (es, .ok j)) : tombstoned R (applyEffects es d) = tombstoned R d := by
  obtain ⟨lines, hlines, -, rfl, -⟩ := openJournal_ok h
  rw [tombstoned, manifestText_open, read_append_lines hb hlines, tombstoned, hlines, Option.getD_some, Option.getD_some,
    retiredIn_append, retiredIn_openLines, List.append_nil]

/-- The survey finds nothing but duplicates. -/
theorem Survey.issues_ofLines (lines : List ManifestLine) :
    ∀ issue ∈ (Survey.ofLines lines).issues, ∃ seg, issue = .duplicate seg := by
  induction lines using List.reverseRecOn with
  | nil => exact nofun
  | append_singleton lines line ih =>
    rw [Survey.ofLines_concat]
    cases line with
    | sealed entry =>
      rw [Survey.note]
      split_ifs
      · intro issue hissue
        rcases List.mem_append.mp hissue with hissue | hissue
        · exact ih issue hissue
        · exact ⟨entry.seg, List.mem_singleton.mp hissue⟩
      · exact ih
    | retired _ => exact ih

/-- **Verification passes the tombstoned parts over**: none of them is reported missing. -/
theorem not_unreadable_of_tombstoned {seg : Seg} (hseg : seg.incarnation ∈ tombstoned R d) :
    .unreadable seg ∉ verifyManifest R d := by
  intro hmem
  unfold verifyManifest at hmem
  rcases hread : readManifestText R d.manifestText with _ | lines
  · rw [hread] at hmem
    exact absurd (List.mem_singleton.mp hmem) nofun
  · rw [tombstoned, hread, Option.getD_some] at hseg
    rw [hread] at hmem
    simp only [List.mem_append, List.mem_flatMap, or_assoc] at hmem
    rcases hmem with hmem | ⟨entry, hentry, hmem⟩ | ⟨seg', -, hmem⟩
    · obtain ⟨seg', heq⟩ := Survey.issues_ofLines lines _ hmem
      cases heq
    · have hissue : entry.seg = seg := by
        unfold entryIssues at hmem
        split at hmem
        · exact (Issue.unreadable.inj (List.mem_singleton.mp hmem)).symm
        · split_ifs at hmem <;> simp at hmem
      have hnot := (List.mem_filter.mp hentry).2
      rw [Bool.not_eq_true', List.contains_eq_mem, decide_eq_false_iff_not, (Survey.ofLines_spec lines).2] at hnot
      subst hissue
      exact hnot hseg
    · unfold partIssues at hmem
      split_ifs at hmem <;> simp at hmem

end Reopened

/-! ### Crash safety -/

/-- What holds of `c`, left by a sweep of `d` that was stopped, where `bare` is what the stop leaves
without the sweep. -/
structure SweepSafe (R : LineReader) (d bare c : Dir) : Prop where
  untouched : ∀ i, i ∈ tombstoned R c ∨ ∀ part, c.parts.get? ⟨i, part⟩ = bare.parts.get? ⟨i, part⟩
  front : ∀ i, c.incarnationSegs i <+: d.incarnationSegs i
  remaining : ∀ seg ∈ c.listSegments, c.parts.get? seg = bare.parts.get? seg
  newest : ∀ i, some i = (listIncarnations d).getLast? → ∀ part,
    c.parts.get? ⟨i, part⟩ = bare.parts.get? ⟨i, part⟩
  completed : ∀ es j, (openJournal R).run c = (es, .ok j) → ∀ seg ∈ (applyEffects es c).listSegments,
    seg.incarnation ∉ tombstoned R c
  verified : ∀ seg : Seg, seg.incarnation ∈ tombstoned R c → .unreadable seg ∉ verifyManifest R c ∧
    ∀ es j, (openJournal R).run c = (es, .ok j) → .unreadable seg ∉ verifyManifest R (applyEffects es c)

/-- **Retention is crash-safe.** Wherever between two of its effects a sweep is stopped, every
incarnation is untouched or tombstoned and has the first of its parts left, the newest is whole; the next
`open` leaves no part of a tombstoned incarnation, and verification misses none of their parts, before
it or after. -/
theorem sweep_safe {R : LineReader} {d : Dir} (hwhole : WholeManifest d) {minIncarnation : ℕ} {es : List Effect}
    (hes : es <+: ((retainBefore R minIncarnation).run d).1) (cut : Seg → ℕ) (kept : Bool) :
    SweepSafe R d (d.stop cut kept) ((applyEffects es d).stop cut kept) := by
  obtain ⟨hb, hrest⟩ := hwhole
  obtain ⟨is, pending, hswept, hlatest, hread⟩ := retainBefore_swept hrest hes
  have hremaining : ∀ seg ∈ ((applyEffects es d).stop cut kept).listSegments,
      ((applyEffects es d).stop cut kept).parts.get? seg = (d.stop cut kept).parts.get? seg := by
    intro seg hseg
    rw [Dir.stop, Dir.crash_listSegments] at hseg
    rw [get?_stop, get?_stop, hswept.parts seg hseg]
  have hsame : ∀ i ∉ is, ∀ part, ((applyEffects es d).stop cut kept).parts.get? ⟨i, part⟩ =
      (d.stop cut kept).parts.get? ⟨i, part⟩ := fun i hi part => hswept.get?_stop_of_not_mem cut kept hi
  have htombstoned : ∀ i ∈ is, i ∈ tombstoned R ((applyEffects es d).stop cut kept) := by
    intro i hi
    rcases hread with hread | rfl
    · exact hswept.tombstoned_stop cut kept hb hread hi
    · cases hi
  refine ⟨fun i => ?_, fun i => ?_, hremaining, fun i hi => ?_, fun es' j hopen seg hseg => ?_, fun seg hseg => ⟨?_, ?_⟩⟩
  · by_cases hi : i ∈ is
    · exact .inl (htombstoned i hi)
    · exact .inr (hsame i hi)
  · rw [incarnationSegs_stop]
    exact hswept.front i
  · exact hsame i fun hmem => hlatest i hmem hi
  · exact not_tombstoned_opened hopen hseg
  · exact not_unreadable_of_tombstoned hseg
  · intro es' j hopen
    obtain ⟨new, htext⟩ := hswept.manifestText_stop cut kept
    have hboundary : AtBoundary ((applyEffects es d).stop cut kept).manifestText := htext ▸ atBoundary_append hb _
    rw [← tombstoned_opened hboundary hopen] at hseg
    exact not_unreadable_of_tombstoned hseg

/-- An incarnation of two parts, and one with a checkpoint. -/
def checkpointed : Dir :=
  applyEffects [.createPart ⟨1, 1⟩, .createPart ⟨1, 2⟩, .createPart ⟨2, 1⟩,
    .writePart ⟨2, 1⟩ (Record.encode ⟨.checkpointRef, 1, 0, []⟩)] Dir.empty

/-- Stopped when the newer part of the incarnation is gone. -/
theorem sweep_safe_halfway :
    let es : List Effect := [.appendManifest (ManifestLine.retired ⟨1⟩).render, .syncManifest, .removePart ⟨1, 2⟩]
    es <+: ((retainBefore exactReader 9).run checkpointed).1 ∧
      SweepSafe exactReader checkpointed (checkpointed.stop (fun _ => 0) false)
        ((applyEffects es checkpointed).stop (fun _ => 0) false) := by
  have hwhole : WholeManifest checkpointed := ⟨atBoundary_nil, rfl⟩
  have hes : [.appendManifest (ManifestLine.retired ⟨1⟩).render, .syncManifest, .removePart ⟨1, 2⟩] <+:
      ((retainBefore exactReader 9).run checkpointed).1 := by
    decide +kernel
  exact ⟨hes, sweep_safe hwhole hes (fun _ => 0) false⟩

end Journal
end OpenRelay
