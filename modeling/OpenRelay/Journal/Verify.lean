/-
# Verification of the manifest

`verify_manifest` compares the parts on disk with the manifest and reports every
difference (`session/journal/manifest.rs`). It reports nothing when every listed
part is there with its length and checksum, no part is listed twice, and every
part that is there is listed or is the newest one (`verifyManifest_of_intact`);
it does report a part that is neither (`verifyManifest_orphan`).
-/
import OpenRelay.Journal.Open

namespace OpenRelay
namespace Journal

/-- What `verify_manifest` reports. -/
inductive Issue where
  /-- The manifest cannot be read. -/
  | manifest
  /-- `manifest: duplicate entry for incarnation … part …` -/
  | duplicate (seg : Seg)
  /-- `sealed part unreadable` -/
  | unreadable (seg : Seg)
  /-- `sealed part is … bytes, manifest says …` -/
  | length (seg : Seg) (actual listed : ℕ)
  /-- `sealed part CRC-32 mismatch (manifest …, actual …)` -/
  | crcMismatch (seg : Seg) (listed actual : ℕ)
  /-- `retention tombstoned incarnation … but part files remain on disk` -/
  | leftover (seg : Seg)
  /-- `segment part has no manifest entry (not the active tail)` -/
  | noEntry (seg : Seg)
  deriving DecidableEq, Repr

/-- What a pass over the manifest's lines collects. -/
structure Survey where
  issues : List Issue
  seen : List Seg
  retired : List ℕ
  sealed : List SegmentManifestEntry

namespace Survey

/-- Nothing has been looked at. -/
def new : Survey := ⟨[], [], [], []⟩

def note (s : Survey) : ManifestLine → Survey
  | .sealed entry =>
    if s.seen.contains entry.seg then { s with issues := s.issues ++ [.duplicate entry.seg] }
    else { s with seen := entry.seg :: s.seen, sealed := s.sealed ++ [entry] }
  | .retired tombstone => { s with retired := tombstone.retired :: s.retired }

def ofLines (lines : List ManifestLine) : Survey := lines.foldl note new

end Survey

/-- The check of one sealed part. -/
def entryIssues (d : Dir) (entry : SegmentManifestEntry) : List Issue :=
  match d.partData entry.seg with
  | none => [.unreadable entry.seg]
  | some bytes =>
    if bytes.length ≠ entry.bytes then [.length entry.seg bytes.length entry.bytes]
    else if Crc32.ofBytes bytes ≠ entry.crc32 then
      [.crcMismatch entry.seg entry.crc32 (Crc32.ofBytes bytes)]
    else []

/-- The check of one part on disk. -/
def partIssues (s : Survey) (activeTail : Option Seg) (seg : Seg) : List Issue :=
  if s.retired.contains seg.incarnation then [.leftover seg]
  else if !s.seen.contains seg ∧ some seg ≠ activeTail then [.noEntry seg]
  else []

/-- What is wrong with a directory. -/
def verifyManifest (R : LineReader) (d : Dir) : List Issue :=
  match readManifestText R d.manifestText with
  | none => [.manifest]
  | some lines =>
    let s := Survey.ofLines lines
    s.issues ++
      (s.sealed.filter fun entry => !s.retired.contains entry.incarnation).flatMap (entryIssues d) ++
      d.listSegments.flatMap (partIssues s d.listSegments.getLast?)

/-! ### What the survey finds -/

theorem sealedEntries_append (ls ls' : List ManifestLine) :
    sealedEntries (ls ++ ls') = sealedEntries ls ++ sealedEntries ls' := List.filterMap_append

theorem manifestedIn_append (ls ls' : List ManifestLine) :
    manifestedIn (ls ++ ls') = manifestedIn ls ++ manifestedIn ls' := by
  rw [manifestedIn, sealedEntries_append, List.map_append]
  rfl

namespace Survey

theorem ofLines_concat (lines : List ManifestLine) (line : ManifestLine) :
    ofLines (lines ++ [line]) = (ofLines lines).note line := by
  rw [ofLines, List.foldl_concat]
  rfl

/-- Every listed part and every tombstone is seen. -/
theorem ofLines_spec (lines : List ManifestLine) :
    (∀ seg, seg ∈ (ofLines lines).seen ↔ seg ∈ manifestedIn lines) ∧
      (∀ i, i ∈ (ofLines lines).retired ↔ i ∈ retiredIn lines) := by
  induction lines using List.reverseRecOn with
  | nil => exact ⟨fun _ => Iff.rfl, fun _ => Iff.rfl⟩
  | append_singleton lines line ih =>
    obtain ⟨hseen, hretired⟩ := ih
    rw [ofLines_concat, manifestedIn_append, retiredIn, List.filterMap_append, ← retiredIn]
    cases line with
    | sealed entry =>
      refine ⟨fun seg => ?_, fun i => ?_⟩
      · rw [List.mem_append, ← hseen]
        by_cases hc : (ofLines lines).seen.contains entry.seg = true
        · rw [note, if_pos hc]
          rw [List.contains_iff_mem] at hc
          constructor
          · exact fun h => .inl h
          · rintro (h | h)
            · exact h
            · rw [List.mem_singleton.mp h]
              exact hc
        · rw [note, if_neg hc]
          simp [manifestedIn, sealedEntries, or_comm]
      · have hkeep : ((ofLines lines).note (.sealed entry)).retired = (ofLines lines).retired := by
          rw [note]
          split <;> rfl
        rw [hkeep, hretired]
        simp
    | retired tombstone =>
      refine ⟨fun seg => ?_, fun i => ?_⟩
      · simp [note, hseen, manifestedIn, sealedEntries]
      · simp [note, hretired, or_comm]

/-- Without duplicates every entry is checked. -/
theorem ofLines_nodup {lines : List ManifestLine} (h : (manifestedIn lines).Nodup) :
    (ofLines lines).issues = [] ∧ (ofLines lines).sealed = sealedEntries lines := by
  induction lines using List.reverseRecOn with
  | nil => exact ⟨rfl, rfl⟩
  | append_singleton lines line ih =>
    rw [manifestedIn_append, List.nodup_append] at h
    obtain ⟨hissues, hsealed⟩ := ih h.1
    rw [ofLines_concat, sealedEntries_append]
    cases line with
    | sealed entry =>
      have hnot : ¬ (ofLines lines).seen.contains entry.seg = true := by
        rw [List.contains_iff_mem, (ofLines_spec lines).1]
        intro hmem
        exact h.2.2 entry.seg hmem entry.seg (by simp [manifestedIn, sealedEntries]) rfl
      rw [note, if_neg hnot]
      refine ⟨hissues, ?_⟩
      simp [hsealed, sealedEntries]
    | retired tombstone =>
      refine ⟨hissues, ?_⟩
      simp [note, hsealed, sealedEntries]

end Survey

section Verified

variable {R : LineReader} {d : Dir} {lines : List ManifestLine}

/-- A part that is there with the length and the checksum of its entry. -/
def Intact (d : Dir) (entry : SegmentManifestEntry) : Prop :=
  ∃ file, d.partData entry.seg = some file ∧ entry.bytes = file.length ∧ entry.crc32 = Crc32.ofBytes file

theorem entryIssues_of_intact {entry : SegmentManifestEntry} (h : Intact d entry) : entryIssues d entry = [] := by
  obtain ⟨file, hp, hlen, hcrc⟩ := h
  simp [entryIssues, hp, hlen, hcrc]

/-- A journal without tombstones that is as its manifest says. -/
theorem verifyManifest_of_intact (hread : readManifestText R d.manifestText = some lines)
    (hretired : retiredIn lines = []) (hnodup : (manifestedIn lines).Nodup)
    (hentries : ∀ entry ∈ sealedEntries lines, Intact d entry)
    (hparts : ∀ seg ∈ d.listSegments, seg ∈ manifestedIn lines ∨ some seg = d.listSegments.getLast?) :
    verifyManifest R d = [] := by
  obtain ⟨hissues, hsealed⟩ := Survey.ofLines_nodup hnodup
  obtain ⟨hseen, hret⟩ := Survey.ofLines_spec lines
  rw [verifyManifest, hread]
  simp only [hissues, hsealed, List.nil_append, List.append_eq_nil_iff, List.flatMap_eq_nil_iff]
  refine ⟨fun entry he => entryIssues_of_intact (hentries entry (List.mem_filter.mp he).1), fun seg hseg => ?_⟩
  have hnot : (Survey.ofLines lines).retired.contains seg.incarnation = false := by
    rw [List.contains_eq_mem, decide_eq_false_iff_not, hret, hretired]
    exact List.not_mem_nil
  rw [partIssues, hnot, if_neg Bool.false_ne_true, if_neg]
  rintro ⟨hunseen, hne⟩
  rw [Bool.not_eq_true', List.contains_eq_mem, decide_eq_false_iff_not, hseen] at hunseen
  exact (hparts seg hseg).elim hunseen hne

/-- A part that is neither listed nor the newest one is reported. -/
theorem verifyManifest_orphan (hread : readManifestText R d.manifestText = some lines) {seg : Seg}
    (hseg : seg ∈ d.listSegments) (hnot : seg ∉ manifestedIn lines)
    (hlast : some seg ≠ d.listSegments.getLast?) : verifyManifest R d ≠ [] := by
  obtain ⟨hseen, -⟩ := Survey.ofLines_spec lines
  intro hnil
  rw [verifyManifest, hread] at hnil
  simp only [List.append_eq_nil_iff, List.flatMap_eq_nil_iff] at hnil
  have hpart := hnil.2 seg hseg
  have hunseen : (!(Survey.ofLines lines).seen.contains seg) = true := by
    rw [Bool.not_eq_true', List.contains_eq_mem, decide_eq_false_iff_not, hseen]
    exact hnot
  rw [partIssues] at hpart
  split at hpart
  · cases hpart
  · rw [if_pos ⟨hunseen, hlast⟩] at hpart
    cases hpart

theorem verifyManifest_unreadable (h : readManifestText R d.manifestText = none) :
    verifyManifest R d ≠ [] := by
  rw [verifyManifest, h]
  exact List.cons_ne_nil _ _

end Verified

end Journal
end OpenRelay
