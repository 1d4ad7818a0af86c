/-
# Opening a journal

`open` completes an interrupted retention, recovers the newest part (a torn
tail is rewound), seals or removes the parts the appender never committed to
the manifest, and creates the first part of the next incarnation
(`session/journal/open.rs`).

`openJournal` follows the source step by step. What it decides about one part
depends on that part's bytes alone (`tailFate`, `partFate`), so its effects are
those of the decisions, one after another (`openJournal_eq`).
-/
import OpenRelay.Journal.Disk

namespace OpenRelay
namespace Journal

open Effects Effects.Prog

/-! ### The manifest, read -/

/-- The part an entry names. -/
def SegmentManifestEntry.seg (e : SegmentManifestEntry) : Seg := ⟨e.incarnation, e.part⟩

/-- The sealed-part entries among the lines. -/
def sealedEntries (lines : List ManifestLine) : List SegmentManifestEntry :=
  lines.filterMap fun
    | .sealed entry => some entry
    | .retired _ => none

/-- The retired incarnations among the lines. -/
def retiredIn (lines : List ManifestLine) : List ℕ :=
  lines.filterMap fun
    | .sealed _ => none
    | .retired tombstone => some tombstone.retired

/-- The parts the manifest lists. -/
def manifestedIn (lines : List ManifestLine) : List Seg := (sealedEntries lines).map (·.seg)

section Programs

variable (R : LineReader)

def readManifestLines : JournalM (List ManifestLine) := do
  let d ← get
  match readManifestText R d.manifestText with
  | some lines => pure lines
  | none => fail .malformedManifest

def readManifest : JournalM (List SegmentManifestEntry) := do
  let lines ← readManifestLines R
  pure (sealedEntries lines)

def retiredIncarnations : JournalM (List ℕ) := do
  let lines ← readManifestLines R
  pure (retiredIn lines)

/-- The parts in the directory. -/
def listSegments : JournalM (List Seg) := do
  let d ← get
  pure d.listSegments

def readPart (seg : Seg) : JournalM Bytes := do
  let d ← get
  match d.partData seg with
  | some data => pure data
  | none => fail (.notFound seg)

/-- `SegmentWriter::create`: the file must be new. -/
def createPart (seg : Seg) : JournalM Unit := do
  let d ← get
  if d.partData seg = none then act (.createPart seg) else fail (.alreadyExists seg)

def removePart (seg : Seg) : JournalM Unit := act (.removePart seg)

def removeParts : List Seg → JournalM Unit
  | [] => pure ()
  | seg :: segs => do
    removePart seg
    removeParts segs

def syncDir : JournalM Unit := act .syncDir

def appendManifestLine (line : ManifestLine) : JournalM Unit := do
  act (.appendManifest line.render)
  act .syncManifest

/-! ### The steps of `open` -/

/-- Finish deleting the parts of retired incarnations. -/
def completeRetiredRetention (retired : List ℕ) : JournalM Unit := do
  let segments ← listSegments
  let leftovers := segments.filter fun seg => retired.contains seg.incarnation
  removeParts leftovers
  if leftovers = [] then pure () else syncDir

/-- The entry of a part with these bytes. -/
def sealEntry (seg : Seg) (firstSeq lastSeq : ℕ) (bytes : Bytes) : SegmentManifestEntry where
  incarnation := seg.incarnation
  part := seg.part
  firstSeq := firstSeq
  lastSeq := lastSeq
  bytes := bytes.length
  crc32 := Crc32.ofBytes bytes

/-- A part is listed as sealed, with the records that were found in it. -/
def sealValidatedPart (seg : Seg) (firstSeq lastSeq : ℕ) : JournalM Unit := do
  let bytes ← readPart seg
  appendManifestLine (.sealed (sealEntry seg firstSeq lastSeq bytes))
  syncDir

/-- What recovery does with a part that is not in the manifest. -/
inductive Fate where
  | sealed (firstSeq lastSeq : ℕ)
  | remove
  | leave
  deriving DecidableEq, Repr

/-- The newest part: sealed also after a rewind; removed if it is empty. -/
def tailFate (expectedFirst : Option ℕ) (stats : SegmentStats) : Fate :=
  match expectedFirst, stats.lastSeq, stats.stop with
  | some first, some last, .cleanEof => .sealed first last
  | some first, some last, .partialTail => .sealed first last
  | none, none, .cleanEof => if stats.validLen = 0 then .remove else .leave
  | _, _, _ => .leave

/-- An older part: sealed only if it is whole; removed if it is empty. -/
def partFate (expectedFirst : Option ℕ) (stats : SegmentStats) : Fate :=
  match expectedFirst, stats.lastSeq, stats.stop with
  | some first, some last, .cleanEof => .sealed first last
  | none, none, .cleanEof => if stats.validLen = 0 then .remove else .leave
  | _, _, _ => .leave

/-- What was decided for a part is done. -/
def settle (seg : Seg) : Fate → JournalM Unit
  | .sealed first last => sealValidatedPart seg first last
  | .remove => do
    removePart seg
    syncDir
  | .leave => pure ()

def settleUnlisted (manifested : List Seg) (seg : Seg) (fate : Fate) : JournalM Unit :=
  if manifested.contains seg then pure () else settle seg fate

/-- A torn tail is truncated so that no reader sees it again. -/
def rewind (seg : Seg) (stats : SegmentStats) : JournalM Unit :=
  if stats.stop.mayRewind then do
    act (.setLen seg stats.validLen)
    syncDir
  else pure ()

/-- What recovery found in the newest part. -/
structure RecoveryReport where
  incarnation : ℕ
  records : ℕ
  lastSeq : Option ℕ
  stop : ScanStop
  rewound : Bool
  deriving DecidableEq, Repr

/-- The first sequence number recovery expects of the newest part: a torn or
foreign first header is left to the scan. -/
def tailFirst (file : Bytes) : Option ℕ :=
  match partFirstSeq file with
  | .ok first => first
  | .error _ => none

/-- Recover the newest part. -/
def recoverTail (manifested : List Seg) (seg : Seg) : JournalM RecoveryReport := do
  let file ← readPart seg
  let expectedFirst := tailFirst file
  if seg.part = 1 ∧ expectedFirst.any (fun first => decide (first ≠ 1)) then fail (.prefixNotAtOne seg)
  else do
    let stats := scanSegmentStatsFrom file expectedFirst
    rewind seg stats
    settleUnlisted manifested seg (tailFate expectedFirst stats)
    pure {
      incarnation := seg.incarnation, records := stats.records, lastSeq := stats.lastSeq
      stop := stats.stop, rewound := stats.stop.mayRewind }

/-- Reconcile an older part that is not in the manifest; a torn or foreign
first header is passed over. -/
def reconcilePart (seg : Seg) : JournalM Unit := do
  let file ← readPart seg
  match partFirstSeq file with
  | .error _ => pure ()
  | .ok expectedFirst => settle seg (partFate expectedFirst (scanSegmentStatsFrom file expectedFirst))

/-- The newest part and the manifested ones are passed over. -/
def reconcileUnlisted (manifested : List Seg) (tail : Option Seg) (seg : Seg) : JournalM Unit :=
  if some seg = tail ∨ manifested.contains seg then pure () else reconcilePart seg

def reconcileParts (manifested : List Seg) (tail : Option Seg) : List Seg → JournalM Unit
  | [] => pure ()
  | seg :: segs => do
    reconcileUnlisted manifested tail seg
    reconcileParts manifested tail segs

/-- What `open` gives back. -/
structure OpenedJournal where
  incarnation : ℕ
  report : Option RecoveryReport
  deriving DecidableEq, Repr

/-- The next incarnation: past every part and every tombstone. -/
def nextIncarnation (segments : List Seg) (retired : List ℕ) : ℕ :=
  max ((segments.getLast?.map Seg.incarnation).getD 0) (retired.max?.getD 0) + 1

def recoverNewest (manifested : List Seg) : Option Seg → JournalM (Option RecoveryReport)
  | none => pure none
  | some seg => do
    let report ← recoverTail manifested seg
    pure (some report)

/-- Open the journal: recover the newest incarnation and create the next. -/
def openJournal : JournalM OpenedJournal := do
  let retired ← retiredIncarnations R
  completeRetiredRetention retired
  let segments ← listSegments
  let entries ← readManifest R
  let manifested := entries.map (·.seg)
  let report ← recoverNewest manifested segments.getLast?
  reconcileParts manifested segments.getLast? segments
  let incarnation := nextIncarnation segments retired
  createPart ⟨incarnation, 1⟩
  syncDir
  pure { incarnation := incarnation, report := report }

end Programs

/-! ### The effects of `open` -/

/-- What is done about parts of retired incarnations. -/
def retireEffects (d : Dir) (retired : List ℕ) : List Effect :=
  let leftovers := d.listSegments.filter fun seg => retired.contains seg.incarnation
  leftovers.map .removePart ++ if leftovers = [] then [] else [.syncDir]

/-- The effects of a decision about a part with these bytes. -/
def settleEffects (seg : Seg) (bytes : Bytes) : Fate → List Effect
  | .sealed first last =>
    [.appendManifest (ManifestLine.sealed (sealEntry seg first last bytes)).render, .syncManifest, .syncDir]
  | .remove => [.removePart seg, .syncDir]
  | .leave => []

/-- The stats recovery scans of the newest part. -/
def tailStats (file : Bytes) : SegmentStats := scanSegmentStatsFrom file (tailFirst file)

/-- What is done about a torn tail. -/
def rewindEffects (seg : Seg) (file : Bytes) : List Effect :=
  if (tailStats file).stop.mayRewind then [.setLen seg (tailStats file).validLen, .syncDir] else []

/-- The bytes of the newest part after a rewind. -/
def rewoundBytes (file : Bytes) : Bytes :=
  if (tailStats file).stop.mayRewind then file.take (tailStats file).validLen else file

/-- What is done about the last part. -/
def tailEffects (manifested : List Seg) (seg : Seg) (file : Bytes) : List Effect :=
  rewindEffects seg file ++
    if manifested.contains seg then []
    else settleEffects seg (rewoundBytes file) (tailFate (tailFirst file) (tailStats file))

/-- The decision about an older part that is not in the manifest. -/
def olderFate (file : Bytes) : Fate :=
  match partFirstSeq file with
  | .error _ => .leave
  | .ok first => partFate first (scanSegmentStatsFrom file first)

/-- What is done about any other part. -/
def partEffects (manifested : List Seg) (tail : Option Seg) (d : Dir) (seg : Seg) : List Effect :=
  if some seg = tail ∨ manifested.contains seg then []
  else settleEffects seg ((d.partData seg).getD []) (olderFate ((d.partData seg).getD []))

/-- The newest part starts an incarnation at a sequence number other than 1. -/
def badHead (seg : Seg) (file : Bytes) : Bool :=
  decide (seg.part = 1 ∧ (tailFirst file).any (fun first => decide (first ≠ 1)))

/-- The directory once an interrupted retention is completed. -/
def retained (d : Dir) (lines : List ManifestLine) : Dir :=
  applyEffects (retireEffects d (retiredIn lines)) d

/-- The newest part and its bytes. -/
def newest (d : Dir) : Option (Seg × Bytes) :=
  d.listSegments.getLast?.map fun seg => (seg, (d.partData seg).getD [])

/-- What is done about the last part, if there is one. -/
def newestEffects (manifested : List Seg) (d : Dir) : List Effect :=
  match newest d with
  | none => []
  | some (seg, file) => tailEffects manifested seg file

/-- What `open` does before it creates the next incarnation. -/
def recoverEffects (d : Dir) (lines : List ManifestLine) : List Effect :=
  let d' := retained d lines
  newestEffects (manifestedIn lines) d' ++
    d'.listSegments.flatMap (partEffects (manifestedIn lines) d'.listSegments.getLast? d')

/-- The incarnation `open` creates. -/
def openedIncarnation (d : Dir) (lines : List ManifestLine) : ℕ :=
  nextIncarnation (retained d lines).listSegments (retiredIn lines)

/-- All that is done when a journal is opened. -/
def openEffects (d : Dir) (lines : List ManifestLine) : List Effect :=
  retireEffects d (retiredIn lines) ++ recoverEffects d lines ++
    [.createPart ⟨openedIncarnation d lines, 1⟩, .syncDir]

/-- What is told of the last part. -/
def newestReport (d : Dir) : Option RecoveryReport :=
  (newest d).map fun (seg, file) => {
    incarnation := seg.incarnation, records := (tailStats file).records
    lastSeq := (tailStats file).lastSeq, stop := (tailStats file).stop
    rewound := (tailStats file).stop.mayRewind }

/-! ### `open` takes these effects -/

theorem removeParts_run : ∀ (segs : List Seg) (d : Dir),
    (removeParts segs).run d = (segs.map .removePart, .ok ())
  | [], _ => rfl
  | seg :: segs, d => by
    rw [removeParts, removePart, bind_of_act, removeParts_run segs]
    rfl

theorem completeRetiredRetention_run (retired : List ℕ) (d : Dir) :
    (completeRetiredRetention retired).run d = (retireEffects d retired, .ok ()) := by
  unfold completeRetiredRetention
  rw [bind_of_read (a := d.listSegments) rfl, bind_run (removeParts_run _ _)]
  unfold retireEffects
  by_cases h : (d.listSegments.filter fun seg => retired.contains seg.incarnation) = []
  · simp only [h, if_true]; rfl
  · simp only [h, if_false]; rfl

theorem readPart_run {seg : Seg} {d : Dir} {file : Bytes} (h : d.partData seg = some file) :
    (readPart seg).run d = ([], .ok file) := by
  unfold readPart
  rw [bind_of_read (get_run d), h]
  rfl

theorem settle_run {seg : Seg} {d : Dir} {file : Bytes} (h : d.partData seg = some file) (fate : Fate) :
    (settle seg fate).run d = (settleEffects seg file fate, .ok ()) := by
  cases fate with
  | sealed first last =>
    rw [settle, sealValidatedPart, bind_of_read (readPart_run h)]
    rfl
  | remove => rfl
  | leave => rfl

/-- The rewind leaves the bytes that the settling reads. -/
theorem partData_rewind {seg : Seg} {d : Dir} {file : Bytes} (h : d.partData seg = some file) :
    (applyEffects (rewindEffects seg file) d).partData seg = some (rewoundBytes file) := by
  unfold rewindEffects rewoundBytes
  split
  · rw [applyEffects_cons, partData_applyEffects_of_ne (by simp [Effect.part?]), partData_setLen, h]
    rfl
  · exact h

theorem recoverTail_run (manifested : List Seg) {seg : Seg} {d : Dir} {file : Bytes}
    (h : d.partData seg = some file) :
    (recoverTail manifested seg).run d =
      if badHead seg file then ([], .error (.prefixNotAtOne seg))
      else (tailEffects manifested seg file, .ok {
        incarnation := seg.incarnation, records := (tailStats file).records
        lastSeq := (tailStats file).lastSeq, stop := (tailStats file).stop
        rewound := (tailStats file).stop.mayRewind }) := by
  unfold recoverTail
  rw [bind_of_read (readPart_run h)]
  simp only
  by_cases hbad : seg.part = 1 ∧ (tailFirst file).any (fun first => decide (first ≠ 1)) = true
  · rw [if_pos hbad, if_pos (by simpa [badHead] using hbad)]
    rfl
  · rw [if_neg hbad, ← tailStats, if_neg (by simpa [badHead] using hbad)]
    have hafter := partData_rewind h
    have hrewind : (rewind seg (tailStats file)).run d = (rewindEffects seg file, .ok ()) := by
      unfold rewind rewindEffects
      split <;> rfl
    have hsettle : (settleUnlisted manifested seg (tailFate (tailFirst file) (tailStats file))).run
          (applyEffects (rewindEffects seg file) d) =
        ((if manifested.contains seg then []
          else settleEffects seg (rewoundBytes file) (tailFate (tailFirst file) (tailStats file))), .ok ()) := by
      unfold settleUnlisted
      split
      · rfl
      · exact settle_run hafter _
    rw [bind_run hrewind, bind_run hsettle]
    simp only [tailEffects, pure_run, List.append_nil]

theorem reconcilePart_run {seg : Seg} {d : Dir} {file : Bytes} (h : d.partData seg = some file) :
    (reconcilePart seg).run d = (settleEffects seg file (olderFate file), .ok ()) := by
  unfold reconcilePart olderFate
  rw [bind_of_read (readPart_run h)]
  rcases hf : partFirstSeq file with _ | first
  · rfl
  · exact settle_run h _

/-- Settling a part is about that part. -/
theorem settleEffects_part {seg : Seg} {file : Bytes} {fate : Fate} {e : Effect}
    (h : e ∈ settleEffects seg file fate) : e.part? = none ∨ e.part? = some seg := by
  cases fate with
  | sealed first last =>
    simp only [settleEffects, List.mem_cons, List.not_mem_nil, or_false] at h
    rcases h with rfl | rfl | rfl <;> exact .inl rfl
  | remove =>
    simp only [settleEffects, List.mem_cons, List.not_mem_nil, or_false] at h
    rcases h with rfl | rfl
    · exact .inr rfl
    · exact .inl rfl
  | leave => cases h

theorem partEffects_part {manifested : List Seg} {tail : Option Seg} {d : Dir} {seg : Seg} {e : Effect}
    (h : e ∈ partEffects manifested tail d seg) : e.part? = none ∨ e.part? = some seg := by
  unfold partEffects at h
  split at h
  · cases h
  · exact settleEffects_part h

theorem tailEffects_part {manifested : List Seg} {seg : Seg} {file : Bytes} {e : Effect}
    (h : e ∈ tailEffects manifested seg file) : e.part? = none ∨ e.part? = some seg := by
  unfold tailEffects rewindEffects at h
  rcases List.mem_append.mp h with h | h
  · split at h
    · simp only [List.mem_cons, List.not_mem_nil, or_false] at h
      rcases h with rfl | rfl
      · exact .inr rfl
      · exact .inl rfl
    · cases h
  · split at h
    · cases h
    · exact settleEffects_part h

/-- The older parts are settled one by one, each as the recovered directory has
it. -/
theorem reconcileParts_run {manifested : List Seg} {tail : Option Seg} {d₀ : Dir} :
    ∀ {segs : List Seg} {d : Dir}, segs.Nodup →
      (∀ seg ∈ segs, some seg ≠ tail → d.partData seg = d₀.partData seg ∧ (d₀.partData seg).isSome) →
      (reconcileParts manifested tail segs).run d =
        (segs.flatMap (partEffects manifested tail d₀), .ok ())
  | [], d, _, _ => rfl
  | seg :: segs, d, hnd, hsame => by
    obtain ⟨hnot, hnd'⟩ := List.nodup_cons.mp hnd
    have hhead : (reconcileUnlisted manifested tail seg).run d =
        (partEffects manifested tail d₀ seg, .ok ()) := by
      unfold reconcileUnlisted partEffects
      split
      · rfl
      · rename_i hc
        obtain ⟨h1, h2⟩ := hsame seg List.mem_cons_self (fun h => hc (.inl h))
        obtain ⟨file, hfile⟩ := Option.isSome_iff_exists.mp h2
        rw [reconcilePart_run (h1.trans hfile), hfile]
        rfl
    have hrest : (reconcileParts manifested tail segs).run
        (applyEffects (partEffects manifested tail d₀ seg) d) =
        (segs.flatMap (partEffects manifested tail d₀), .ok ()) := by
      refine reconcileParts_run hnd' fun seg' hmem htail => ?_
      rw [partData_applyEffects_of_ne]
      · exact hsame seg' (List.mem_cons_of_mem _ hmem) htail
      · intro e he heq
        rcases partEffects_part he with h | h
        · rw [h] at heq; cases heq
        · rw [h] at heq
          cases heq
          exact hnot hmem
    rw [reconcileParts, bind_run hhead, hrest]
    rfl

/-! ### What the effects leave alone -/

theorem retireEffects_cases {d : Dir} {retired : List ℕ} {e : Effect} (h : e ∈ retireEffects d retired) :
    (∃ seg ∈ d.listSegments, seg.incarnation ∈ retired ∧ e = .removePart seg) ∨ e = .syncDir := by
  simp only [retireEffects] at h
  rcases List.mem_append.mp h with h | h
  · obtain ⟨seg, hseg, rfl⟩ := List.mem_map.mp h
    rw [List.mem_filter, List.contains_iff_mem] at hseg
    exact .inl ⟨seg, hseg.1, hseg.2, rfl⟩
  · split at h
    · cases h
    · exact .inr (List.mem_singleton.mp h)

theorem retireEffects_appended (d : Dir) (retired : List ℕ) :
    (retireEffects d retired).flatMap Effect.appended = [] := by
  rw [List.flatMap_eq_nil_iff]
  intro e he
  rcases retireEffects_cases he with ⟨seg, -, -, rfl⟩ | rfl <;> rfl

@[simp] theorem retained_manifestText (d : Dir) (lines : List ManifestLine) :
    (retained d lines).manifestText = d.manifestText := by
  rw [retained, manifestText_applyEffects, retireEffects_appended, List.append_nil]

theorem applyEffects_removeParts : ∀ (segs : List Seg) (d : Dir) (seg : Seg),
    (applyEffects (segs.map .removePart) d).parts.get? seg =
      if seg ∈ segs then none else d.parts.get? seg
  | [], d, seg => by simp
  | seg' :: segs, d, seg => by
    rw [List.map_cons, applyEffects_cons, applyEffects_removeParts segs]
    by_cases h : seg ∈ segs
    · simp [h]
    · by_cases heq : seg = seg' <;>
        simp [h, heq, Effect.apply, SortedMap.get?_erase]

/-- Completing a retention removes the parts of the retired incarnations, and
nothing else. -/
theorem get?_retained (d : Dir) (lines : List ManifestLine) (seg : Seg) :
    (retained d lines).parts.get? seg =
      if seg.incarnation ∈ retiredIn lines then none else d.parts.get? seg := by
  have htail : ∀ d' : Dir, ∀ segs : List Seg,
      applyEffects (if segs = [] then [] else [.syncDir]) d' = d' := by
    intro d' segs
    split <;> rfl
  simp only [retained, retireEffects]
  rw [applyEffects_append, htail, applyEffects_removeParts]
  by_cases hr : seg.incarnation ∈ retiredIn lines
  · rw [if_pos hr]
    split
    · rfl
    · rename_i hmem
      rw [List.mem_filter, List.contains_iff_mem, not_and_or] at hmem
      rw [SortedMap.get?_eq_none]
      exact hmem.resolve_right (not_not.mpr hr)
  · rw [if_neg hr, if_neg]
    rw [List.mem_filter, List.contains_iff_mem]
    exact fun h => hr h.2

theorem partData_retained (d : Dir) (lines : List ManifestLine) (seg : Seg) :
    (retained d lines).partData seg =
      if seg.incarnation ∈ retiredIn lines then none else d.partData seg := by
  simp only [Dir.partData, get?_retained]
  split <;> rfl

/-- The effects of recovery name only listed parts, and create none. -/
theorem recoverEffects_cases {d : Dir} {lines : List ManifestLine} {e : Effect}
    (h : e ∈ recoverEffects d lines) :
    (∃ seg file, newest (retained d lines) = some (seg, file) ∧
      e ∈ tailEffects (manifestedIn lines) seg file) ∨
    ∃ seg ∈ (retained d lines).listSegments,
      e ∈ partEffects (manifestedIn lines) (retained d lines).listSegments.getLast? (retained d lines) seg := by
  simp only [recoverEffects] at h
  rcases List.mem_append.mp h with h | h
  · unfold newestEffects at h
    split at h
    · cases h
    · rename_i seg file hn
      exact .inl ⟨seg, file, hn, h⟩
  · exact .inr (List.mem_flatMap.mp h)

theorem settleEffects_no_create {seg seg' : Seg} {file : Bytes} {fate : Fate} :
    Effect.createPart seg' ∉ settleEffects seg file fate := by
  cases fate <;> simp [settleEffects]

theorem recoverEffects_no_create {d : Dir} {lines : List ManifestLine} {seg : Seg} :
    Effect.createPart seg ∉ recoverEffects d lines := by
  intro h
  rcases recoverEffects_cases h with ⟨seg', file, -, h⟩ | ⟨seg', -, h⟩
  · simp only [tailEffects, rewindEffects] at h
    rcases List.mem_append.mp h with h | h
    · split at h <;> simp at h
    · split at h
      · cases h
      · exact settleEffects_no_create h
  · unfold partEffects at h
    split at h
    · cases h
    · exact settleEffects_no_create h

/-- The next incarnation is new. -/
theorem lt_nextIncarnation {d : Dir} {retired : List ℕ} {seg : Seg} (h : seg ∈ d.listSegments) :
    seg.incarnation < nextIncarnation d.listSegments retired := by
  rcases hl : d.listSegments.getLast? with _ | l
  · rw [List.getLast?_eq_none_iff] at hl
    rw [hl] at h; cases h
  · have hle := SortedMap.le_of_last (m := d.parts) hl h
    have hinc : seg.incarnation ≤ l.incarnation := by
      rcases Seg.le_iff.mp hle with h' | h'
      · exact h'.le
      · exact h'.1.le
    simp only [nextIncarnation, hl, Option.map_some, Option.getD_some]
    omega

theorem retired_lt_nextIncarnation {segments : List Seg} {retired : List ℕ} {i : ℕ} (h : i ∈ retired) :
    i < nextIncarnation segments retired := by
  have hle : i ≤ retired.max?.getD 0 := by
    rcases hm : retired.max? with _ | m
    · rw [List.max?_eq_none_iff] at hm
      rw [hm] at h; cases h
    · exact (List.max?_eq_some_iff.mp hm).2 i h
  simp only [nextIncarnation]
  omega

/-- `open` makes the new incarnation's first part only. -/
theorem openEffects_create {d : Dir} {lines : List ManifestLine} {seg : Seg}
    (h : Effect.createPart seg ∈ openEffects d lines) : seg = ⟨openedIncarnation d lines, 1⟩ := by
  rcases List.mem_append.mp h with h | h
  · rcases List.mem_append.mp h with h | h
    · rcases retireEffects_cases h with ⟨seg', -, -, h⟩ | h <;> cases h
    · exact absurd h recoverEffects_no_create
  · simpa using h

/-- The parts that recovery leaves were there before. -/
theorem mem_listSegments_recovered {d : Dir} {lines : List ManifestLine} {seg : Seg}
    (h : seg ∈ (applyEffects (recoverEffects d lines) (retained d lines)).listSegments) :
    seg ∈ (retained d lines).listSegments := by
  by_contra hnot
  rw [← partData_eq_none] at hnot
  have hnone : (applyEffects (recoverEffects d lines) (retained d lines)).partData seg = none :=
    partData_applyEffects_none recoverEffects_no_create hnot
  rw [partData_eq_none] at hnone
  exact hnone h

theorem partData_opened_none (d : Dir) (lines : List ManifestLine) :
    (applyEffects (recoverEffects d lines) (retained d lines)).partData
      ⟨openedIncarnation d lines, 1⟩ = none := by
  refine partData_applyEffects_none recoverEffects_no_create ?_
  rw [partData_eq_none]
  intro h
  exact (lt_nextIncarnation h).ne rfl

/-! ### The whole of `open` -/

theorem newest_eq_some {d : Dir} {seg : Seg} {file : Bytes} :
    newest d = some (seg, file) ↔ d.listSegments.getLast? = some seg ∧ d.partData seg = some file := by
  unfold newest
  rcases hl : d.listSegments.getLast? with _ | l
  · simp
  · have hsome := (mem_listSegments d l).mp (List.mem_of_getLast? hl)
    obtain ⟨f, hf⟩ := Option.isSome_iff_exists.mp hsome
    simp only [Option.map_some, Option.some.injEq, Prod.mk.injEq]
    constructor
    · rintro ⟨rfl, rfl⟩
      exact ⟨rfl, by rw [hf]; rfl⟩
    · rintro ⟨rfl, h⟩
      exact ⟨rfl, by rw [h]; rfl⟩

/-- The newest part's effects leave the other parts as they are. -/
theorem partData_newestEffects {manifested : List Seg} {d : Dir} {seg : Seg}
    (hne : some seg ≠ d.listSegments.getLast?) :
    (applyEffects (newestEffects manifested d) d).partData seg = d.partData seg := by
  refine partData_applyEffects_of_ne (fun e he heq => ?_) d
  unfold newestEffects at he
  split at he
  · cases he
  · rename_i seg' file hn
    rcases tailEffects_part he with h | h
    · rw [h] at heq; cases heq
    · rw [h] at heq
      cases heq
      exact hne (newest_eq_some.mp hn).1.symm

/-- What stops `open` after the manifest is read: the newest part starts an
incarnation at a sequence number other than 1. -/
def headFault (d : Dir) : Option Seg :=
  match newest d with
  | some (seg, file) => if badHead seg file then some seg else none
  | none => none

theorem recoverNewest_run (manifested : List Seg) (d : Dir) :
    (recoverNewest manifested d.listSegments.getLast?).run d =
      match headFault d with
      | some seg => ([], .error (.prefixNotAtOne seg))
      | none => (newestEffects manifested d, .ok (newestReport d)) := by
  unfold headFault newestEffects newestReport
  rcases hn : newest d with _ | ⟨seg, file⟩
  · have hl : d.listSegments.getLast? = none := by simpa [newest] using hn
    rw [hl]
    rfl
  · obtain ⟨hl, hfile⟩ := newest_eq_some.mp hn
    have hrun := recoverTail_run manifested hfile
    rw [hl, recoverNewest]
    by_cases hbad : badHead seg file = true
    · rw [if_pos hbad] at hrun
      simp only [hbad, if_true]
      rw [bind_of_error hrun]
    · rw [if_neg hbad] at hrun
      simp only [hbad, Bool.false_eq_true, if_false]
      rw [bind_run hrun]
      simp

variable {R : LineReader}

/-- **The effects of `open`.** It fails without an effect on a manifest it
cannot read, and after completing a retention on a newest part that does not
start its incarnation; else it recovers, and creates the next incarnation. -/
theorem openJournal_eq (d : Dir) :
    (openJournal R).run d = match readManifestText R d.manifestText with
      | none => ([], .error .malformedManifest)
      | some lines => match headFault (retained d lines) with
        | some seg => (retireEffects d (retiredIn lines), .error (.prefixNotAtOne seg))
        | none => (openEffects d lines, .ok {
            incarnation := openedIncarnation d lines, report := newestReport (retained d lines) }) := by
  unfold openJournal
  rcases hm : readManifestText R d.manifestText with _ | lines
  · have h : (readManifestLines R).run d = ([], .error .malformedManifest) := by
      rw [readManifestLines, bind_of_read (get_run d), hm]; rfl
    have h' : (retiredIncarnations R).run d = ([], .error .malformedManifest) := bind_of_error h _
    rw [bind_of_error h']
  · have hlines : ∀ d' : Dir, d'.manifestText = d.manifestText →
        (readManifestLines R).run d' = ([], .ok lines) := by
      intro d' hd'
      rw [readManifestLines, bind_of_read (get_run d'), hd', hm]; rfl
    have hret : (retiredIncarnations R).run d = ([], .ok (retiredIn lines)) := by
      rw [retiredIncarnations, bind_of_read (hlines d rfl)]; rfl
    have hman : (readManifest R).run (retained d lines) = ([], .ok (sealedEntries lines)) := by
      rw [readManifest, bind_of_read (hlines _ (retained_manifestText d lines))]; rfl
    rw [bind_of_read hret, bind_run (completeRetiredRetention_run _ _), ← retained]
    have hnew := recoverNewest_run (manifestedIn lines) (retained d lines)
    rcases hf : headFault (retained d lines) with _ | seg
    · rw [hf] at hnew
      have hother : (reconcileParts (manifestedIn lines) (retained d lines).listSegments.getLast?
            (retained d lines).listSegments).run
            (applyEffects (newestEffects (manifestedIn lines) (retained d lines)) (retained d lines)) =
          ((retained d lines).listSegments.flatMap
            (partEffects (manifestedIn lines) (retained d lines).listSegments.getLast?
              (retained d lines)), .ok ()) := by
        refine reconcileParts_run ((retained d lines).parts.keys_pairwise.imp ne_of_lt) ?_
        intro seg hseg hne
        exact ⟨partData_newestEffects hne, (mem_listSegments _ _).mp hseg⟩
      have hcreate : (createPart ⟨openedIncarnation d lines, 1⟩).run
            (applyEffects (recoverEffects d lines) (retained d lines)) =
          ([.createPart ⟨openedIncarnation d lines, 1⟩], .ok ()) := by
        rw [createPart, bind_of_read (get_run _), if_pos (partData_opened_none d lines)]
        rfl
      have hstate : applyEffects ((retained d lines).listSegments.flatMap
            (partEffects (manifestedIn lines) (retained d lines).listSegments.getLast? (retained d lines)))
            (applyEffects (newestEffects (manifestedIn lines) (retained d lines)) (retained d lines)) =
          applyEffects (recoverEffects d lines) (retained d lines) := by
        rw [recoverEffects, applyEffects_append]
      rw [bind_of_read (a := (retained d lines).listSegments) rfl, bind_of_read hman]
      simp only
      rw [← manifestedIn, bind_run hnew, bind_run hother, hstate, ← openedIncarnation, bind_run hcreate]
      simp only [hf, openEffects, recoverEffects, syncDir, bind_of_act, pure_run, List.append_assoc,
        List.cons_append, List.nil_append]
    · rw [hf] at hnew
      rw [bind_of_read (a := (retained d lines).listSegments) rfl, bind_of_read hman]
      simp only
      rw [← manifestedIn, bind_of_error hnew]
      simp only [hf, List.append_nil]

/-- An `open` that succeeds. -/
theorem openJournal_ok {d : Dir} {es : List Effect} {j : OpenedJournal}
    (h : (openJournal R).run d = (es, .ok j)) :
    ∃ lines, readManifestText R d.manifestText = some lines ∧ headFault (retained d lines) = none ∧
      es = openEffects d lines ∧ j.incarnation = openedIncarnation d lines := by
  rw [openJournal_eq] at h
  rcases hm : readManifestText R d.manifestText with _ | lines
  · rw [hm] at h
    cases h
  · rw [hm] at h
    simp only at h
    rcases hf : headFault (retained d lines) with _ | seg
    · rw [hf] at h
      cases h
      exact ⟨lines, rfl, hf, rfl, rfl⟩
    · rw [hf] at h
      cases h

theorem applyEffects_open (d : Dir) (lines : List ManifestLine) :
    applyEffects (openEffects d lines) d =
      (Effect.createPart ⟨openedIncarnation d lines, 1⟩).apply
        (applyEffects (recoverEffects d lines) (retained d lines)) := by
  rw [openEffects, applyEffects_append, applyEffects_append, ← retained]
  rfl

/-- The parts after `open`: the new one is empty, and the only one of its
incarnation. -/
theorem get?_opened {d : Dir} {lines : List ManifestLine} {part : ℕ} :
    (applyEffects (openEffects d lines) d).parts.get? ⟨openedIncarnation d lines, part⟩ =
      if part = 1 then some File.empty else none := by
  rw [applyEffects_open]
  by_cases hp : part = 1
  · rw [if_pos hp, hp, Effect.apply, SortedMap.get?_insert, if_pos rfl]
  · rw [if_neg hp, get?_apply_of_ne (by simpa [Effect.part?] using fun h => hp h.symm),
      SortedMap.get?_eq_none]
    intro hmem
    exact (lt_nextIncarnation (mem_listSegments_recovered hmem)).ne rfl

/-! ### What the decisions mean -/

/-- The first record a scan can accept is the one its header announces. -/
theorem tailFirst_of_readRecord {file : Bytes} {r : Record} (h : readRecord file = .ok r) :
    tailFirst file = some r.seq := by
  unfold readRecord at h
  rcases hh : readHeader file with stop | header
  · rw [hh] at h
    cases h
  · have hseq : r.seq = header.seq := by
      rw [hh] at h
      rcases hp : readPayload header (file.drop headerLen) with stop | payload
      · simp only [hp] at h
        cases h
      · simp only [hp] at h
        cases h
        rfl
    unfold readHeader at hh
    repeat' split at hh
    all_goals cases hh
    rename_i hne hlen hmagic _ _ _ _ _
    rw [tailFirst, partFirstSeq, if_neg hne, if_neg hlen, if_neg hmagic, hseq]

/-- A part that scans clean to its end is as long as its valid records. -/
theorem validLen_of_clean {file : Bytes} {first : Option ℕ}
    (h : (scanSegmentStatsFrom file first).stop = .cleanEof) :
    (scanSegmentStatsFrom file first).validLen = file.length := by
  rw [scanSegmentStatsFrom_eq] at h ⊢
  exact parseRecords_clean first file h

theorem tailFate_eq_remove {first : Option ℕ} {stats : SegmentStats}
    (h : tailFate first stats = .remove) : stats.stop = .cleanEof ∧ stats.validLen = 0 := by
  unfold tailFate at h
  split at h
  · cases h
  · cases h
  · rename_i hstop
    split at h
    · rename_i hlen
      exact ⟨hstop, hlen⟩
    · cases h
  · cases h

theorem partFate_eq_remove {first : Option ℕ} {stats : SegmentStats}
    (h : partFate first stats = .remove) : stats.stop = .cleanEof ∧ stats.validLen = 0 := by
  unfold partFate at h
  split at h
  · cases h
  · rename_i hstop
    split at h
    · rename_i hlen
      exact ⟨hstop, hlen⟩
    · cases h
  · cases h

theorem tailFate_remove {file : Bytes} (h : tailFate (tailFirst file) (tailStats file) = .remove) :
    file = [] := by
  obtain ⟨hstop, hlen⟩ := tailFate_eq_remove h
  rw [tailStats, validLen_of_clean hstop] at hlen
  exact List.length_eq_zero_iff.mp hlen

theorem olderFate_remove {file : Bytes} (h : olderFate file = .remove) : file = [] := by
  unfold olderFate at h
  rcases hf : partFirstSeq file with _ | first
  · rw [hf] at h
    cases h
  · rw [hf] at h
    obtain ⟨hstop, hlen⟩ := partFate_eq_remove h
    rw [validLen_of_clean hstop] at hlen
    exact List.length_eq_zero_iff.mp hlen

/-! ### What `open` leaves -/

/-- The lines a decision adds to the manifest. -/
def fateLines (seg : Seg) (bytes : Bytes) : Fate → List ManifestLine
  | .sealed first last => [.sealed (sealEntry seg first last bytes)]
  | .remove | .leave => []

def tailLines (manifested : List Seg) (d : Dir) : List ManifestLine :=
  match newest d with
  | none => []
  | some (seg, file) =>
    if manifested.contains seg then []
    else fateLines seg (rewoundBytes file) (tailFate (tailFirst file) (tailStats file))

def partLines (manifested : List Seg) (tail : Option Seg) (d : Dir) (seg : Seg) : List ManifestLine :=
  if some seg = tail ∨ manifested.contains seg then []
  else fateLines seg ((d.partData seg).getD []) (olderFate ((d.partData seg).getD []))

/-- The lines `open` adds to the manifest. -/
def openLines (d : Dir) (lines : List ManifestLine) : List ManifestLine :=
  let d' := retained d lines
  tailLines (manifestedIn lines) d' ++
    d'.listSegments.flatMap (partLines (manifestedIn lines) d'.listSegments.getLast? d')

theorem settleEffects_appended (seg : Seg) (bytes : Bytes) (fate : Fate) :
    (settleEffects seg bytes fate).flatMap Effect.appended = renderAll (fateLines seg bytes fate) := by
  cases fate with
  | sealed first last =>
    simp [settleEffects, fateLines, Effect.appended, renderAll, Lines.renderLines_cons, ManifestLine.render]
  | remove | leave => rfl

theorem renderAll_append (ls ls' : List ManifestLine) :
    renderAll (ls ++ ls') = renderAll ls ++ renderAll ls' := Lines.renderLines_append ls ls'

theorem openEffects_appended (d : Dir) (lines : List ManifestLine) :
    (openEffects d lines).flatMap Effect.appended = renderAll (openLines d lines) := by
  have hrewind : ∀ seg file, (rewindEffects seg file).flatMap Effect.appended = [] := by
    intro seg file
    unfold rewindEffects
    split <;> rfl
  have htail : (newestEffects (manifestedIn lines) (retained d lines)).flatMap Effect.appended =
      renderAll (tailLines (manifestedIn lines) (retained d lines)) := by
    unfold newestEffects tailLines
    rcases newest (retained d lines) with _ | ⟨seg, file⟩
    · rfl
    · simp only [tailEffects, List.flatMap_append, hrewind, List.nil_append]
      split
      · rfl
      · exact settleEffects_appended _ _ _
  have hparts : ∀ segs : List Seg, (segs.flatMap (partEffects (manifestedIn lines)
      (retained d lines).listSegments.getLast? (retained d lines))).flatMap Effect.appended =
      renderAll (segs.flatMap (partLines (manifestedIn lines)
        (retained d lines).listSegments.getLast? (retained d lines))) := by
    intro segs
    induction segs with
    | nil => rfl
    | cons seg segs ih =>
      rw [List.flatMap_cons, List.flatMap_append, ih, List.flatMap_cons, renderAll_append]
      congr 1
      unfold partEffects partLines
      split
      · rfl
      · exact settleEffects_appended _ _ _
  simp only [openEffects, recoverEffects, openLines, List.flatMap_append, retireEffects_appended, htail, hparts,
    renderAll_append, List.nil_append]
  simp [Effect.appended]

/-- The manifest after `open`. -/
theorem manifestText_open (d : Dir) (lines : List ManifestLine) :
    (applyEffects (openEffects d lines) d).manifestText =
      d.manifestText ++ renderAll (openLines d lines) := by
  rw [manifestText_applyEffects, openEffects_appended]

/-- What a decision leaves of its part. -/
theorem partData_settle {d : Dir} {seg : Seg} (bytes : Bytes) (fate : Fate) :
    (applyEffects (settleEffects seg bytes fate) d).partData seg =
      if fate = .remove then none else d.partData seg := by
  cases fate with
  | sealed first last =>
    rw [if_neg (fun h => by cases h)]
    exact partData_applyEffects_of_ne (by simp [settleEffects, Effect.part?]) d
  | remove =>
    rw [if_pos rfl, settleEffects, applyEffects_cons, partData_applyEffects_of_ne (by simp [Effect.part?]),
      partData_removePart]
  | leave => rw [if_neg (fun h => by cases h)]; rfl

/-- Effects of other parts leave a part alone. -/
theorem partData_flatMap {f : Seg → List Effect} {seg : Seg}
    (hf : ∀ seg', ∀ e ∈ f seg', e.part? = none ∨ e.part? = some seg') {segs : List Seg}
    (hnot : seg ∉ segs) (d : Dir) : (applyEffects (segs.flatMap f) d).partData seg = d.partData seg := by
  refine partData_applyEffects_of_ne (fun e he heq => ?_) d
  obtain ⟨seg', hmem, he⟩ := List.mem_flatMap.mp he
  rcases hf seg' e he with h | h
  · rw [h] at heq
    cases heq
  · rw [h] at heq
    cases heq
    exact hnot hmem

/-- Of the effects of several parts, those of a part decide about it. -/
theorem partData_flatMap_mem {f : Seg → List Effect} {seg : Seg} {out : Option Bytes → Option Bytes}
    (hf : ∀ seg', ∀ e ∈ f seg', e.part? = none ∨ e.part? = some seg')
    (hseg : ∀ d : Dir, (applyEffects (f seg) d).partData seg = out (d.partData seg))
    {segs : List Seg} (hnd : segs.Nodup) (hmem : seg ∈ segs) (d : Dir) :
    (applyEffects (segs.flatMap f) d).partData seg = out (d.partData seg) := by
  obtain ⟨before, after, rfl⟩ := List.append_of_mem hmem
  rw [List.nodup_append] at hnd
  obtain ⟨-, hnd', hdis⟩ := hnd
  have hbefore : seg ∉ before := fun h => hdis seg h seg List.mem_cons_self rfl
  rw [List.flatMap_append, List.flatMap_cons, applyEffects_append, applyEffects_append,
    partData_flatMap hf (List.nodup_cons.mp hnd').1, hseg, partData_flatMap hf hbefore]

/-- The newest part after `open`. -/
theorem partData_open_newest {d : Dir} {lines : List ManifestLine} {seg : Seg} {file : Bytes}
    (hn : newest (retained d lines) = some (seg, file)) :
    (applyEffects (openEffects d lines) d).partData seg =
      if seg ∉ manifestedIn lines ∧ tailFate (tailFirst file) (tailStats file) = .remove then none
      else some (rewoundBytes file) := by
  obtain ⟨hlast, hfile⟩ := newest_eq_some.mp hn
  have hmem : seg ∈ (retained d lines).listSegments := List.mem_of_getLast? hlast
  have hne : (Effect.createPart ⟨openedIncarnation d lines, 1⟩).part? ≠ some seg := by
    intro heq
    cases heq
    exact (lt_nextIncarnation hmem).ne rfl
  have hothers : ∀ d' : Dir, (applyEffects ((retained d lines).listSegments.flatMap
      (partEffects (manifestedIn lines) (retained d lines).listSegments.getLast? (retained d lines))) d').partData
      seg = d'.partData seg := by
    intro d'
    refine partData_applyEffects_of_ne (fun e he heq => ?_) d'
    obtain ⟨seg', hmem', he⟩ := List.mem_flatMap.mp he
    rcases partEffects_part he with h | h
    · rw [h] at heq
      cases heq
    · rw [h] at heq
      cases heq
      rw [partEffects, if_pos (.inl hlast.symm)] at he
      cases he
  have hrewound : (applyEffects (rewindEffects seg file) (retained d lines)).partData seg =
      some (rewoundBytes file) := partData_rewind hfile
  rw [applyEffects_open, partData_apply_of_ne hne, recoverEffects, applyEffects_append, hothers, newestEffects, hn]
  simp only [tailEffects, applyEffects_append]
  by_cases hman : seg ∈ manifestedIn lines
  · rw [if_pos (List.contains_iff_mem.mpr hman), if_neg (fun h => h.1 hman)]
    exact hrewound
  · rw [if_neg (fun h => hman (List.contains_iff_mem.mp h)), partData_settle, hrewound]
    simp only [hman, not_false_eq_true, true_and]

/-- An older part after `open`. -/
theorem partData_open_older {d : Dir} {lines : List ManifestLine} {seg : Seg} {file : Bytes}
    (hfile : d.partData seg = some file) (hret : seg.incarnation ∉ retiredIn lines)
    (hne : some seg ≠ (retained d lines).listSegments.getLast?) :
    (applyEffects (openEffects d lines) d).partData seg =
      if seg ∉ manifestedIn lines ∧ olderFate file = .remove then none else some file := by
  have hfile' : (retained d lines).partData seg = some file := by
    rw [partData_retained, if_neg hret, hfile]
  have hmem : seg ∈ (retained d lines).listSegments := (mem_listSegments _ _).mpr (by rw [hfile']; rfl)
  have hcreate : (Effect.createPart ⟨openedIncarnation d lines, 1⟩).part? ≠ some seg := by
    intro heq
    cases heq
    exact (lt_nextIncarnation hmem).ne rfl
  have hnodup : (retained d lines).listSegments.Nodup := (retained d lines).parts.keys_pairwise.imp ne_of_lt
  have hpart : ∀ d' : Dir, (applyEffects (partEffects (manifestedIn lines)
      (retained d lines).listSegments.getLast? (retained d lines) seg) d').partData seg =
      if seg ∉ manifestedIn lines ∧ olderFate file = .remove then none else d'.partData seg := by
    intro d'
    unfold partEffects
    rw [hfile', Option.getD_some]
    by_cases hman : seg ∈ manifestedIn lines
    · rw [if_pos (.inr (List.contains_iff_mem.mpr hman)), if_neg (fun h => h.1 hman)]
      rfl
    · rw [if_neg (not_or.mpr ⟨hne, fun h => hman (List.contains_iff_mem.mp h)⟩), partData_settle]
      simp only [hman, not_false_eq_true, true_and]
  rw [applyEffects_open, partData_apply_of_ne hcreate, recoverEffects, applyEffects_append,
    partData_flatMap_mem (fun _ _ => partEffects_part) hpart hnodup hmem, partData_newestEffects hne, hfile']

end Journal
end OpenRelay
