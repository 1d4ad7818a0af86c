/-
# Is the manifest truthful after recovery?

`Left` are the directories that crashes of the appender leave, one incarnation
after another. In such a directory every listed part is as its entry says, and a
part that is not listed is the newest one or empty (`kept_of_left`).

`open` then lists the newest part or removes it, with two exceptions: a part that
ends within its first record is emptied, but stays and is not listed; and an
entry appended to a manifest that lost its last newline makes the manifest
unreadable. Without these, and only then, verification finds nothing
(`truthful_iff`).
-/
import OpenRelay.Journal.Recovery
import OpenRelay.Journal.Verify

namespace OpenRelay
namespace Journal

open Image ShadowJournal

/-- The directories that crashes of the appender leave. -/
inductive Left (R : LineReader) : Dir → Prop
  | empty : Left R Dir.empty
  /-- `open` succeeds, the appender of the new incarnation runs, the machine
  stops. -/
  | crash {d : Dir} {es : List Effect} {j : OpenedJournal} {maxPartBytes : ℕ} {as : List Action}
      {s : ShadowJournal} (before : Left R d) (opens : (openJournal R).run d = (es, .ok j))
      (runs : Runs.run step (opened j.incarnation maxPartBytes (applyEffects es d)) as = some s)
      (cut : Seg → ℕ) (manifestCut : ℕ) : Left R (s.disk.crash cut manifestCut)

/-! ### Entries that are true -/

/-- The entry of a part with these records. -/
def entryOf (seg : Seg) (group : List Record) : SegmentManifestEntry :=
  sealEntry seg ((group.head?.map Record.seq).getD 0) ((lastSeqOf group).getD 0) (encodeAll group)

/-- The part holds whole records, and the entry is the one of these. -/
def Truthful (d : Dir) (entry : SegmentManifestEntry) : Prop :=
  ∃ a group, group ≠ [] ∧ CrashedTail a group [] ∧ d.partData entry.seg = some (encodeAll group) ∧
    entry = entryOf entry.seg group

/-- The entry gives the part's length, its checksum, and the sequence numbers of
its first and last records. -/
def Described (d : Dir) (entry : SegmentManifestEntry) : Prop :=
  ∃ file rs, d.partData entry.seg = some file ∧ entry.bytes = file.length ∧
    entry.crc32 = Crc32.ofBytes file ∧ parseRecords none file = (rs, .cleanEof) ∧
    rs.head?.map Record.seq = some entry.firstSeq ∧ lastSeqOf rs = some entry.lastSeq

theorem Truthful.described {d : Dir} {entry : SegmentManifestEntry} (h : Truthful d entry) :
    Described d entry := by
  obtain ⟨a, group, hne, hwhole, hdata, hentry⟩ := h
  obtain ⟨r, rs, rfl⟩ := List.exists_cons_of_ne_nil hne
  have hparse : parseRecords none (encodeAll (r :: rs)) = (r :: rs, .cleanEof) := by
    rw [← List.append_nil (encodeAll (r :: rs))]
    exact parseRecords_encodeAll readRecord_nil hwhole.fits hwhole.numbered hwhole.bound.le fun _ => .inr rfl
  have hlast : lastSeqOf (r :: rs) = some ((lastSeqOf (r :: rs)).getD 0) := by
    rw [lastSeqOf, List.getLast?_cons]
    rfl
  refine ⟨_, r :: rs, hdata, ?_, ?_, hparse, ?_, ?_⟩
  · rw [hentry]
    rfl
  · rw [hentry]
    rfl
  · rw [hentry]
    rfl
  · rw [hentry]
    exact hlast

theorem Described.intact {d : Dir} {entry : SegmentManifestEntry} (h : Described d entry) : Intact d entry := by
  obtain ⟨file, rs, hdata, hlen, hcrc, -⟩ := h
  exact ⟨file, hdata, hlen, hcrc⟩

/-- It stays true while the part keeps its bytes. -/
theorem Truthful.of_partData {d d' : Dir} {entry : SegmentManifestEntry} (h : Truthful d entry)
    (heq : d'.partData entry.seg = d.partData entry.seg) : Truthful d' entry := by
  obtain ⟨a, group, hne, hwhole, hdata, hentry⟩ := h
  exact ⟨a, group, hne, hwhole, by rw [heq, hdata], hentry⟩

/-! ### The directories a crash leaves -/

/-- A directory and what its manifest reads as. -/
structure Kept (d : Dir) (lines : List ManifestLine) : Prop where
  retired : retiredIn lines = []
  nodup : (manifestedIn lines).Nodup
  entries : ∀ entry ∈ sealedEntries lines, Truthful d entry
  older : ∀ seg ∈ d.listSegments, seg ∉ manifestedIn lines → some seg ≠ d.listSegments.getLast? →
    d.partData seg = some []
  tail : ∀ seg file, newest d = some (seg, file) → seg ∉ manifestedIn lines →
    ∃ a current torn, file = encodeAll current ++ torn ∧ CrashedTail a current torn

/-- The newest part ends within its first record. -/
def TornFirst (d : Dir) (lines : List ManifestLine) : Prop :=
  ∃ seg file, newest d = some (seg, file) ∧ seg ∉ manifestedIn lines ∧ file ≠ [] ∧
    ∀ r, readRecord file ≠ .ok r

section Fates

variable {a : ℕ} {current : List Record} {torn : Bytes}

/-- The newest part is sealed with its records, removed if it is empty, and left
alone if it ends within its first record. -/
theorem CrashedTail.fate_cons {r : Record} {rs : List Record} (h : CrashedTail a (r :: rs) torn) :
    tailFate (tailFirst (encodeAll (r :: rs) ++ torn)) (tailStats (encodeAll (r :: rs) ++ torn)) =
      .sealed r.seq ((lastSeqOf (r :: rs)).getD 0) := by
  have hlast : lastSeqOf (r :: rs) = some ((lastSeqOf (r :: rs)).getD 0) := by
    rw [lastSeqOf, List.getLast?_cons]
    rfl
  rw [h.stats, tailFirst_cons (h.fits r List.mem_cons_self), hlast]
  by_cases h0 : torn = []
  · simp only [h0, if_true, tailFate, Option.getD_some]
  · simp only [h0, if_false, tailFate, Option.getD_some]

theorem CrashedTail.fate_torn (h : CrashedTail a [] torn) (hne : torn ≠ []) :
    tailFate (tailFirst torn) (tailStats torn) = .leave := by
  have hstats := h.stats
  rw [encodeAll_nil, List.nil_append] at hstats
  rw [hstats, if_neg hne]
  rcases tailFirst torn with _ | first <;> rfl

theorem fate_empty : tailFate (tailFirst []) (tailStats []) = .remove := rfl

theorem olderFate_empty : olderFate [] = .remove := rfl

theorem CrashedTail.readRecord_torn (h : CrashedTail a [] torn) (r : Record) : readRecord torn ≠ .ok r := by
  rcases h.torn with rfl | ⟨r', hr', hpre, hlt⟩
  · exact nofun
  · rw [readRecord_tail hr' hpre hlt]
    exact nofun

theorem CrashedTail.readRecord_cons {r : Record} {rs : List Record} (h : CrashedTail a (r :: rs) torn) :
    readRecord (encodeAll (r :: rs) ++ torn) = .ok r := by
  rw [encodeAll_cons, List.append_assoc]
  exact readRecord_encode (h.fits r List.mem_cons_self) _

end Fates

/-! ### What `open` makes of them -/

theorem mem_manifestedIn {lines : List ManifestLine} {seg : Seg} :
    seg ∈ manifestedIn lines ↔ ∃ entry ∈ sealedEntries lines, entry.seg = seg := List.mem_map

/-- Without tombstones there is no retention to complete. -/
theorem retained_of_no_tombstone {lines : List ManifestLine} (h : retiredIn lines = []) (d : Dir) :
    retained d lines = d := by
  simp [retained, retireEffects, h]

section Reopen

variable {d : Dir} {lines : List ManifestLine}

/-- The parts of a directory are older than the incarnation that `open` starts. -/
theorem Kept.lt_opened (h : Kept d lines) {seg : Seg} (hseg : (d.partData seg).isSome) :
    seg.incarnation < openedIncarnation d lines := by
  refine lt_nextIncarnation ?_
  rw [retained_of_no_tombstone h.retired, mem_listSegments]
  exact hseg

/-- A listed part keeps its bytes. -/
theorem Kept.partData_listed (h : Kept d lines) {seg : Seg} (hm : seg ∈ manifestedIn lines) :
    (applyEffects (openEffects d lines) d).partData seg = d.partData seg := by
  have hret := retained_of_no_tombstone h.retired d
  obtain ⟨entry, he, rfl⟩ := mem_manifestedIn.mp hm
  obtain ⟨a, group, -, hwhole, hdata, -⟩ := h.entries entry he
  by_cases hlast : d.listSegments.getLast? = some entry.seg
  · have hnew : newest (retained d lines) = some (entry.seg, encodeAll group) := by
      rw [hret]
      exact newest_eq_some.mpr ⟨hlast, hdata⟩
    have hrewound := hwhole.rewound
    rw [List.append_nil] at hrewound
    rw [partData_open_newest hnew, if_neg (fun hc => hc.1 hm), hrewound, hdata]
  · rw [partData_open_older hdata (by rw [h.retired]; exact List.not_mem_nil)
      (by rw [hret]; exact fun hc => hlast hc.symm), if_neg (fun hc => hc.1 hm), hdata]

/-- An older part that is not listed is removed. -/
theorem Kept.partData_older (h : Kept d lines) {seg : Seg} (hseg : seg ∈ d.listSegments)
    (hnot : seg ∉ manifestedIn lines) (hne : some seg ≠ d.listSegments.getLast?) :
    (applyEffects (openEffects d lines) d).partData seg = none := by
  rw [partData_open_older (h.older seg hseg hnot hne) (by rw [h.retired]; exact List.not_mem_nil)
    (by rw [retained_of_no_tombstone h.retired]; exact hne), if_pos ⟨hnot, olderFate_empty⟩]

/-- Only the newest part can be listed by `open`. -/
theorem Kept.openLines_eq (h : Kept d lines) : openLines d lines = tailLines (manifestedIn lines) d := by
  rw [openLines, retained_of_no_tombstone h.retired]
  refine List.append_right_eq_self.mpr (List.flatMap_eq_nil_iff.mpr fun seg hseg => ?_)
  unfold partLines
  split
  · rfl
  · rename_i hc
    rw [not_or, List.contains_iff_mem] at hc
    rw [h.older seg hseg hc.2 hc.1]
    rfl

/-- What becomes of the newest part. -/
theorem Kept.tail_cases (h : Kept d lines) {seg : Seg} {file : Bytes} (hnew : newest d = some (seg, file))
    (hnot : seg ∉ manifestedIn lines) :
    (∃ r a group, readRecord file = .ok r ∧ group ≠ [] ∧ CrashedTail a group [] ∧
      openLines d lines = [.sealed (entryOf seg group)] ∧
      (applyEffects (openEffects d lines) d).partData seg = some (encodeAll group)) ∨
    (file = [] ∧ openLines d lines = [] ∧ (applyEffects (openEffects d lines) d).partData seg = none) ∨
    (file ≠ [] ∧ (∀ r, readRecord file ≠ .ok r) ∧ openLines d lines = [] ∧
      (applyEffects (openEffects d lines) d).partData seg = some []) := by
  have hcont : ¬ (manifestedIn lines).contains seg = true := by
    rw [List.contains_iff_mem]
    exact hnot
  have hdata := partData_open_newest
    (show newest (retained d lines) = some (seg, file) by rw [retained_of_no_tombstone h.retired, hnew])
  have hlines : openLines d lines =
      fateLines seg (rewoundBytes file) (tailFate (tailFirst file) (tailStats file)) := by
    rw [h.openLines_eq, tailLines, hnew]
    simp only [if_neg hcont]
  obtain ⟨a, current, torn, rfl, htail⟩ := h.tail seg file hnew hnot
  rw [htail.rewound] at hdata hlines
  rcases current with _ | ⟨r, rs⟩
  · rw [encodeAll_nil, List.nil_append] at hdata hlines ⊢
    by_cases h0 : torn = []
    · subst h0
      rw [if_pos ⟨hnot, fate_empty⟩] at hdata
      exact .inr (.inl ⟨rfl, hlines, hdata⟩)
    · rw [htail.fate_torn h0] at hdata hlines
      rw [if_neg (by simp)] at hdata
      exact .inr (.inr ⟨h0, htail.readRecord_torn, hlines, hdata⟩)
  · rw [htail.fate_cons] at hdata hlines
    rw [if_neg (by simp)] at hdata
    refine .inl ⟨r, a, r :: rs, htail.readRecord_cons, List.cons_ne_nil _ _,
      ⟨htail.fits, htail.numbered, htail.bound, .inl rfl⟩, hlines, hdata⟩

theorem Kept.openLines_nil (h : Kept d lines)
    (hn : ∀ seg file, newest d = some (seg, file) → seg ∈ manifestedIn lines) : openLines d lines = [] := by
  rw [h.openLines_eq, tailLines]
  rcases hnew : newest d with _ | ⟨seg, file⟩
  · rfl
  · have hc : (manifestedIn lines).contains seg = true := List.contains_iff_mem.mpr (hn seg file hnew)
    simp only [hc, if_true]

/-- What `open` lists: nothing, or the newest part with its records. -/
theorem Kept.openLines_cases (h : Kept d lines) :
    openLines d lines = [] ∨
    ∃ seg a group, seg ∉ manifestedIn lines ∧ (d.partData seg).isSome ∧ group ≠ [] ∧ CrashedTail a group [] ∧
      openLines d lines = [.sealed (entryOf seg group)] ∧
      (applyEffects (openEffects d lines) d).partData seg = some (encodeAll group) := by
  by_cases hn : ∀ seg file, newest d = some (seg, file) → seg ∈ manifestedIn lines
  · exact .inl (h.openLines_nil hn)
  · push Not at hn
    obtain ⟨seg, file, hnew, hnot⟩ := hn
    have hsome : (d.partData seg).isSome := by
      rw [(newest_eq_some.mp hnew).2]
      rfl
    rcases h.tail_cases hnew hnot with ⟨r, a, group, -, hne, hwhole, hlines, hdata⟩ | ⟨-, hlines, -⟩ |
      ⟨-, -, hlines, -⟩
    · exact .inr ⟨seg, a, group, hnot, hsome, hne, hwhole, hlines, hdata⟩
    · exact .inl hlines
    · exact .inl hlines

/-- What the manifest is to say after `open`. -/
structure Reopened (d : Dir) (lines : List ManifestLine) : Prop where
  nodup : (manifestedIn (lines ++ openLines d lines)).Nodup
  entries : ∀ entry ∈ sealedEntries (lines ++ openLines d lines),
    Truthful (applyEffects (openEffects d lines) d) entry ∧ entry.incarnation < openedIncarnation d lines
  /-- A part that is not listed is the new one, or one that lost its only
  record. -/
  unlisted : ∀ seg ∈ (applyEffects (openEffects d lines) d).listSegments,
    seg ∉ manifestedIn (lines ++ openLines d lines) → seg = ⟨openedIncarnation d lines, 1⟩ ∨
      (applyEffects (openEffects d lines) d).partData seg = some [] ∧ TornFirst d lines

theorem Kept.reopened (h : Kept d lines) : Reopened d lines := by
  refine ⟨?_, fun entry he => ?_, fun seg hseg hnot => ?_⟩
  · rw [manifestedIn_append]
    rcases h.openLines_cases with hlines | ⟨seg, a, group, hnot, -, -, -, hlines, -⟩
    · rw [hlines]
      exact (List.append_nil (manifestedIn lines)).symm ▸ h.nodup
    · rw [hlines]
      change (manifestedIn lines ++ [seg]).Nodup
      rw [List.nodup_append]
      refine ⟨h.nodup, List.pairwise_singleton _ _, fun x hx y hy heq => hnot ?_⟩
      rw [← List.mem_singleton.mp hy, ← heq]
      exact hx
  · rw [sealedEntries_append] at he
    rcases List.mem_append.mp he with he | he
    · have htrue := h.entries entry he
      refine ⟨htrue.of_partData (h.partData_listed (mem_manifestedIn.mpr ⟨entry, he, rfl⟩)), ?_⟩
      obtain ⟨a, group, -, -, hdata, -⟩ := htrue
      have hsome : (d.partData entry.seg).isSome := by
        rw [hdata]
        rfl
      exact h.lt_opened hsome
    · rcases h.openLines_cases with hlines | ⟨seg, a, group, -, hsome, hne, hwhole, hlines, hdata⟩
      · rw [hlines] at he
        cases he
      · rw [hlines] at he
        rw [List.mem_singleton.mp he]
        exact ⟨⟨a, group, hne, hwhole, hdata, rfl⟩, h.lt_opened hsome⟩
  · rw [manifestedIn_append, List.mem_append, not_or] at hnot
    have hmem : seg = ⟨openedIncarnation d lines, 1⟩ ∨ seg ∈ d.listSegments := by
      rw [applyEffects_open] at hseg
      refine ((SortedMap.mem_keys_insert _ _ _ _).mp hseg).imp_right fun hmem => ?_
      have := mem_listSegments_recovered hmem
      rwa [retained_of_no_tombstone h.retired] at this
    refine hmem.imp_right fun hmem => ?_
    rw [mem_listSegments] at hseg
    by_cases hlast : some seg = d.listSegments.getLast?
    · obtain ⟨file, hfile⟩ := Option.isSome_iff_exists.mp ((mem_listSegments d seg).mp hmem)
      have hnew := newest_eq_some.mpr ⟨hlast.symm, hfile⟩
      rcases h.tail_cases hnew hnot.1 with ⟨r, a, group, -, -, -, hlines, -⟩ | ⟨-, -, hgone⟩ |
        ⟨hne, hr, -, hdata⟩
      · exact absurd (by rw [hlines]; exact List.mem_singleton.mpr rfl) hnot.2
      · rw [hgone] at hseg
        cases hseg
      · exact ⟨hdata, seg, file, hnew, hnot.1, hne, hr⟩
    · rw [h.partData_older hmem hnot.1 hlast] at hseg
      cases hseg

end Reopen

/-! ### Along crashes -/

theorem manifestedIn_groupLines (N : ℕ) (groups : List (List Record)) :
    manifestedIn (groupLines N groups) = (List.range' 1 groups.length).map fun part => ⟨N, part⟩ := by
  induction groups using List.reverseRecOn with
  | nil => rfl
  | append_singleton groups group ih =>
    rw [groupLines_concat, manifestedIn_append, ih, List.length_append, List.length_singleton,
      List.range'_concat, List.map_append, Nat.one_mul, Nat.add_comm 1]
    rfl

theorem mem_sealedEntries_groupLines {N : ℕ} {groups : List (List Record)} {entry : SegmentManifestEntry}
    (h : entry ∈ sealedEntries (groupLines N groups)) :
    ∃ i group, groups[i]? = some group ∧ entry = entryOf ⟨N, i + 1⟩ group := by
  obtain ⟨line, hline, hentry⟩ := List.mem_filterMap.mp h
  obtain ⟨i, hi, rfl⟩ := List.mem_mapIdx.mp hline
  cases hentry
  exact ⟨i, groups[i], List.getElem?_eq_getElem hi, rfl⟩

/-- The records of a part are numbered in turn. -/
theorem numbered_of_mem {groups : List (List Record)} {group : List Record} {a : ℕ}
    (h : Numbered a groups.flatten) (hg : group ∈ groups) :
    ∃ b, Numbered b group ∧ b + group.length ≤ a + groups.flatten.length := by
  obtain ⟨before, after, rfl⟩ := List.append_of_mem hg
  rw [List.flatten_append, List.flatten_cons, numbered_append, numbered_append] at h
  refine ⟨_, h.2.1, ?_⟩
  simp only [List.flatten_append, List.flatten_cons, List.length_append]
  omega

/-- **A crash.** -/
theorem Kept.crash {R : LineReader} {d₀ d : Dir} {lines₀ lines : List ManifestLine}
    {published : List OrderedEvent} {img : Image} (h₀ : Kept d₀ lines₀)
    (hread₀ : readManifestText R d₀.manifestText = some lines₀)
    (hcrash : Crashed (openedIncarnation d₀ lines₀) (applyEffects (openEffects d₀ lines₀) d₀) published img d)
    (hread : readManifestText R d.manifestText = some lines) : Kept d lines := by
  have hre := h₀.reopened
  have hshape := hcrash.shape
  have hretired : retiredIn lines = [] := by
    rw [retiredIn_crashed hread₀ hshape hcrash.valid hread, h₀.retired]
  have hnew : newest d = some (⟨openedIncarnation d₀ lines₀, img.part⟩, encodeAll img.current ++ img.torn) := by
    rw [← retained_of_no_tombstone hretired d]
    refine newest_crashed hshape (fun seg hseg => ?_) (by rw [hretired]; exact List.not_mem_nil)
    rcases Journal.lt_opened hseg with rfl | hlt
    · exact le_rfl
    · exact hlt.le
  have hlast := (newest_eq_some.mp hnew).1
  have hothers : ∀ seg : Seg, seg.incarnation ≠ openedIncarnation d₀ lines₀ →
      d.partData seg = (applyEffects (openEffects d₀ lines₀) d₀).partData seg := by
    intro seg hseg
    rw [Dir.partData, hshape.others seg hseg, Dir.partData]
  obtain ⟨groups, rfl, hgroups⟩ := lines_crashed hread₀ hshape hcrash.valid hread
  -- the listed parts of the incarnation hold whole records
  have hpart : ∀ i group, groups[i]? = some group → group ≠ [] ∧
      d.partData ⟨openedIncarnation d₀ lines₀, i + 1⟩ = some (encodeAll group) := by
    intro i group hi
    have hrot : ∀ group', img.rotated[i]? = some group' → group' ≠ [] ∧
        d.partData ⟨openedIncarnation d₀ lines₀, i + 1⟩ = some (encodeAll group') := fun group' hi' =>
      ⟨hcrash.valid.rotated group' (List.mem_of_getElem? hi'), hshape.partData_rotated hi'⟩
    rcases hgroups with rfl | ⟨rfl, hne, htorn⟩
    · exact hrot group hi
    · by_cases hlt : i < img.rotated.length
      · rw [List.getElem?_append_left hlt] at hi
        exact hrot group hi
      · have hile := (List.getElem?_eq_some_iff.mp hi).1
        rw [List.length_append, List.length_singleton] at hile
        have hieq : i = img.rotated.length := by omega
        rw [hieq, List.getElem?_concat_length] at hi
        cases hi
        refine ⟨hne, ?_⟩
        have hcur := hshape.partData_current
        rwa [htorn, List.append_nil, Image.part, ← hieq] at hcur
  have hprefix : ∃ more, groups.flatten ++ more = img.records := by
    rcases hgroups with rfl | ⟨rfl, -, -⟩
    · exact ⟨img.current, rfl⟩
    · exact ⟨[], by simp [Image.records]⟩
  obtain ⟨more, hmore⟩ := hprefix
  have hnum := hcrash.numbered
  have hbound := hcrash.bound
  rw [← hmore] at hnum hbound
  rw [List.length_append] at hbound
  refine ⟨hretired, ?_, fun entry he => ?_, fun seg hseg hnot hne => ?_, fun seg file hfile _ => ?_⟩
  · rw [manifestedIn_append, manifestedIn_groupLines, List.nodup_append]
    refine ⟨hre.nodup, ?_, fun seg hseg seg' hseg' heq => ?_⟩
    · have hasc : (List.range' 1 groups.length).Pairwise (· < ·) := List.pairwise_lt_range'
      refine List.pairwise_map.mpr (hasc.imp fun {a b} hlt heq => ?_)
      exact hlt.ne (congrArg Seg.part heq)
    · obtain ⟨entry, he, rfl⟩ := mem_manifestedIn.mp hseg
      obtain ⟨part, -, rfl⟩ := List.mem_map.mp hseg'
      exact ((hre.entries entry he).2).ne (congrArg Seg.incarnation heq)
  · rw [sealedEntries_append] at he
    rcases List.mem_append.mp he with he | he
    · obtain ⟨htrue, hlt⟩ := hre.entries entry he
      exact htrue.of_partData (hothers entry.seg hlt.ne)
    · obtain ⟨i, group, hi, rfl⟩ := mem_sealedEntries_groupLines he
      obtain ⟨hgne, hdata⟩ := hpart i group hi
      have hmem := List.mem_of_getElem? hi
      obtain ⟨b, hb, hble⟩ := numbered_of_mem (numbered_append.mp hnum).1 hmem
      refine ⟨b, group, hgne, ⟨fun r hr => hcrash.fits r ?_, hb, by omega, .inl rfl⟩, hdata, rfl⟩
      rw [← hmore]
      exact List.mem_append_left _ (List.mem_flatten.mpr ⟨group, hmem, hr⟩)
  · rw [manifestedIn_append, List.mem_append, not_or, manifestedIn_groupLines] at hnot
    by_cases hinc : seg.incarnation = openedIncarnation d₀ lines₀
    · -- the parts that were rotated out are listed
      obtain ⟨inc, part⟩ := seg
      simp only at hinc
      subst hinc
      rw [mem_listSegments, Dir.partData, Option.isSome_map] at hseg
      have hrange := (hshape.get?_isSome_iff part).mp hseg
      have hlt : part ≠ img.part := fun heq => hne (by rw [hlast, heq])
      have hlen : img.rotated.length ≤ groups.length := by
        rcases hgroups with rfl | ⟨rfl, -, -⟩
        · exact le_rfl
        · simp
      rw [Image.part] at hrange hlt
      exact absurd (List.mem_map.mpr ⟨part, List.mem_range'_1.mpr (by omega), rfl⟩) hnot.2
    · rw [mem_listSegments, hothers seg hinc, ← mem_listSegments] at hseg
      rcases hre.unlisted seg hseg hnot.1 with rfl | ⟨hdata, -⟩
      · exact absurd rfl hinc
      · rw [hothers seg hinc, hdata]
  · rw [hnew] at hfile
    cases hfile
    exact ⟨_, img.current, img.torn, rfl, hcrash.tail⟩

theorem kept_empty {R : LineReader} {lines : List ManifestLine}
    (h : readManifestText R Dir.empty.manifestText = some lines) : Kept Dir.empty lines := by
  have hnil : lines = [] := by
    have hread := read_renderAll (R := R) []
    rw [show renderAll [] = Dir.empty.manifestText from rfl, h] at hread
    exact Option.some.inj hread
  subst hnil
  exact ⟨rfl, .nil, fun _ he => absurd he List.not_mem_nil, fun _ hseg => absurd hseg List.not_mem_nil, nofun⟩

/-- **What crashes leave.** However many incarnations have crashed: the listed
parts are as they are listed, and only the newest part can have bytes without
being listed. -/
theorem kept_of_left {R : LineReader} {d : Dir} (h : Left R d) :
    d.AtRest ∧ ∀ lines, readManifestText R d.manifestText = some lines → Kept d lines := by
  induction h with
  | empty => exact ⟨atRest_empty, fun _ => kept_empty⟩
  | @crash d es j maxPartBytes as s _ hopen hrun cut manifestCut ih =>
    refine ⟨Dir.crash_atRest _ _ _, fun lines hread => ?_⟩
    have hinv : Inv j.incarnation (applyEffects es d) s :=
      Runs.run_invariant (fun h hstep => inv_step h hstep) hrun (inv_opened hopen maxPartBytes)
    obtain ⟨lines₀, hread₀, -, rfl, hN⟩ := openJournal_ok hopen
    obtain ⟨img, hcrash, -⟩ := hinv.crash (atRest_open ih.1 lines₀) cut manifestCut
    rw [hN] at hcrash
    exact (ih.2 lines₀ hread₀).crash hread₀ hcrash hread

/-! ### Verification after `open` -/

/-- The manifest has the entry. -/
def Dir.Lists (R : LineReader) (d : Dir) (entry : SegmentManifestEntry) : Prop :=
  ∃ lines, readManifestText R d.manifestText = some lines ∧ entry ∈ sealedEntries lines

/-- Verification finds nothing, and every part but the active one is listed with
its length, checksum and sequence numbers. -/
structure ManifestTrue (R : LineReader) (d : Dir) (active : Seg) : Prop where
  verified : verifyManifest R d = []
  described : ∀ seg ∈ d.listSegments, seg ≠ active → ∃ entry, entry.seg = seg ∧ d.Lists R entry ∧ Described d entry

/-- The newest part is empty or listed, or it has a whole record and the manifest
ends at a line boundary. -/
def TailSound (R : LineReader) (d : Dir) : Prop :=
  ∀ seg file, newest d = some (seg, file) → file ≠ [] →
    (∃ entry, entry.seg = seg ∧ d.Lists R entry) ∨
      (∃ r, readRecord file = .ok r) ∧ AtBoundary d.manifestText

section Verified

variable {R : LineReader} {d : Dir} {lines : List ManifestLine}

theorem lists_iff (hread : readManifestText R d.manifestText = some lines) (seg : Seg) :
    (∃ entry, entry.seg = seg ∧ d.Lists R entry) ↔ seg ∈ manifestedIn lines := by
  rw [mem_manifestedIn]
  constructor
  · rintro ⟨entry, rfl, lines', hread', he⟩
    rw [hread] at hread'
    cases hread'
    exact ⟨entry, he, rfl⟩
  · rintro ⟨entry, he, rfl⟩
    exact ⟨entry, rfl, lines, hread, he⟩

/-- The new part is the newest one. -/
theorem getLast?_opened (d : Dir) (lines : List ManifestLine) :
    (applyEffects (openEffects d lines) d).listSegments.getLast? = some ⟨openedIncarnation d lines, 1⟩ := by
  refine SortedMap.last_of_le ?_ fun seg hseg => ?_
  · rw [SortedMap.mem_keys, get?_opened]
    rfl
  · rcases lt_opened hseg with rfl | hlt
    · exact le_rfl
    · exact Seg.le_iff.mpr (.inl hlt)

/-- The condition is enough. -/
theorem Kept.manifestTrue (h : Kept d lines) (hread : readManifestText R d.manifestText = some lines)
    (hsound : TailSound R d) :
    ManifestTrue R (applyEffects (openEffects d lines) d) ⟨openedIncarnation d lines, 1⟩ := by
  have hre := h.reopened
  have hread' : readManifestText R (applyEffects (openEffects d lines) d).manifestText =
      some (lines ++ openLines d lines) := by
    rw [manifestText_open]
    by_cases hnil : openLines d lines = []
    · rw [hnil, List.append_nil]
      exact (List.append_nil d.manifestText).symm ▸ hread
    · refine read_append_lines ?_ hread _
      -- a line is added for the newest part, which has a record
      have hn : ¬ ∀ seg file, newest d = some (seg, file) → seg ∈ manifestedIn lines :=
        fun hn => hnil (h.openLines_nil hn)
      push Not at hn
      obtain ⟨seg, file, hnew, hnot⟩ := hn
      have hne : file ≠ [] := by
        rintro rfl
        rcases h.tail_cases hnew hnot with ⟨r, _, _, hr, -⟩ | ⟨-, hlines, -⟩ | ⟨hne, -⟩
        · cases hr
        · exact hnil hlines
        · exact hne rfl
      rcases hsound seg file hnew hne with hl | ⟨-, hb⟩
      · exact absurd ((lists_iff hread seg).mp hl) hnot
      · exact hb
  have hunlisted : ∀ seg ∈ (applyEffects (openEffects d lines) d).listSegments,
      seg ≠ ⟨openedIncarnation d lines, 1⟩ → seg ∈ manifestedIn (lines ++ openLines d lines) := by
    intro seg hseg hne
    by_contra hnot
    rcases hre.unlisted seg hseg hnot with heq | ⟨-, seg', file, hnew, hnot', hfile, hr⟩
    · exact hne heq
    · rcases hsound seg' file hnew hfile with hl | ⟨⟨r, hok⟩, -⟩
      · exact hnot' ((lists_iff hread seg').mp hl)
      · exact hr r hok
  refine ⟨verifyManifest_of_intact hread' ?_ hre.nodup (fun entry he => ?_) (fun seg hseg => ?_),
    fun seg hseg hne => ?_⟩
  · rw [retiredIn_append, retiredIn_openLines, h.retired]
    rfl
  · exact (hre.entries entry he).1.described.intact
  · rw [getLast?_opened, Option.some.injEq]
    by_cases heq : seg = ⟨openedIncarnation d lines, 1⟩
    · exact .inr heq
    · exact .inl (hunlisted seg hseg heq)
  · obtain ⟨entry, he, hentry⟩ := mem_manifestedIn.mp (hunlisted seg hseg hne)
    exact ⟨entry, hentry, ⟨_, hread', he⟩, (hre.entries entry he).1.described⟩

/-- It is needed, too. -/
theorem Kept.tailSound (h : Kept d lines) (hread : readManifestText R d.manifestText = some lines)
    (hver : verifyManifest R (applyEffects (openEffects d lines) d) = []) : TailSound R d := by
  intro seg file hnew hne
  by_cases hl : seg ∈ manifestedIn lines
  · exact .inl ((lists_iff hread seg).mpr hl)
  refine .inr ?_
  rcases h.tail_cases hnew hl with ⟨r, a, group, hr, -, -, hlines, -⟩ | ⟨h0, -⟩ | ⟨-, -, hlines, hdata⟩
  · refine ⟨⟨r, hr⟩, ?_⟩
    by_contra hb
    obtain ⟨t, ht⟩ := renderAll_cons_head (.sealed (entryOf seg group)) []
    refine verifyManifest_unreadable ?_ hver
    rw [manifestText_open, hlines, ht]
    exact read_append_merged hb (by rw [hread]; exact Option.some_ne_none _) t
  · exact absurd h0 hne
  · -- the part is still there, empty, and not listed
    have hread' : readManifestText R (applyEffects (openEffects d lines) d).manifestText = some lines := by
      rw [manifestText_open, hlines]
      exact (List.append_nil d.manifestText).symm ▸ hread
    have hlt : seg.incarnation < openedIncarnation d lines :=
      h.lt_opened (by rw [(newest_eq_some.mp hnew).2]; rfl)
    have hseg : seg ∈ (applyEffects (openEffects d lines) d).listSegments := by
      rw [mem_listSegments, hdata]
      rfl
    refine absurd hver (verifyManifest_orphan hread' hseg hl ?_)
    rw [getLast?_opened, Ne, Option.some.injEq]
    rintro rfl
    exact lt_irrefl _ hlt

end Verified

/-- **Truth of the manifest after recovery.** On what a crash of the appender
leaves, a successful `open` makes the manifest true just when the newest part is
empty or listed, or has a whole record while the manifest ends at a line
boundary. -/
theorem truthful_iff {R : LineReader} {d : Dir} (hleft : Left R d) {es : List Effect} {j : OpenedJournal}
    (hopen : (openJournal R).run d = (es, .ok j)) :
    ManifestTrue R (applyEffects es d) ⟨j.incarnation, 1⟩ ↔ TailSound R d := by
  obtain ⟨lines, hread, -, rfl, hN⟩ := openJournal_ok hopen
  have hkept := (kept_of_left hleft).2 lines hread
  rw [hN]
  exact ⟨fun h => hkept.tailSound hread h.verified, hkept.manifestTrue hread⟩

theorem truthful_iff_torn : ∃ d es j, Left exactReader d ∧ (openJournal exactReader).run d = (es, .ok j) ∧
    (ManifestTrue exactReader (applyEffects es d) ⟨j.incarnation, 1⟩ ↔ TailSound exactReader d) := by
  obtain ⟨s, es, j, hrun, hopen, -⟩ := tornRun_opens
  have hleft : Left exactReader (s.disk.crash (fun _ => 10) 0) := .crash .empty open_empty hrun _ _
  exact ⟨_, es, j, hleft, hopen, truthful_iff hleft hopen⟩

/-- The machine stops within the first record. -/
def firstTornRun : List Action := [.record .output [104, 105] 7, .receive, .effect]

/-- `open` empties the part, but neither lists nor removes it. -/
theorem torn_first_record_is_orphaned : ∃ d es j, Left exactReader d ∧
    (openJournal exactReader).run d = (es, .ok j) ∧ verifyManifest exactReader (applyEffects es d) = [.noEntry ⟨1, 1⟩] := by
  have hrun : (Runs.run step (opened 1 40 (applyEffects [.createPart ⟨1, 1⟩, .syncDir] Dir.empty))
      firstTornRun).any (fun s =>
        let out := (openJournal exactReader).run (s.disk.crash (fun _ => 10) 0)
        out.2.toBool && verifyManifest exactReader (applyEffects out.1 (s.disk.crash (fun _ => 10) 0)) ==
          [.noEntry ⟨1, 1⟩]) = true := by
    decide +kernel
  obtain ⟨s, hs, hp⟩ := (Option.any_eq_true _ _).mp hrun
  simp only [Bool.and_eq_true, beq_iff_eq] at hp
  rcases hopen : (openJournal exactReader).run (s.disk.crash (fun _ => 10) 0) with ⟨es, error | j⟩
  · rw [hopen] at hp
    exact absurd hp.1 Bool.false_ne_true
  · rw [hopen] at hp
    exact ⟨_, es, j, .crash .empty open_empty hs _ _, hopen, hp.2⟩

end Journal
end OpenRelay
