/-
# What an incarnation has on disk

`Image` says what the appender of an incarnation has put on disk: the records of
the parts that were rotated out and of the active one, how many of the latter
are synced, and what a write or a manifest append that was not finished has
left. `Shape` ties an image to a directory. Each effect of the writer changes the
image as one would expect, so every beginning of the writer's effects has an
image (`shape_sealEffects`, `shape_appendEffects`), and so has a crash
(`Shape.crash`).

Key theorem: `incarnationData_eq`.
-/
import OpenRelay.Journal.Writer

namespace OpenRelay
namespace Journal

open Effects

/-! ### Images -/

/-- What an incarnation has on disk. -/
@[ext] structure Image where
  /-- The records of the parts that were rotated out, part by part. -/
  rotated : List (List Record)
  /-- The records of the active part. -/
  current : List Record
  /-- How many of these are synced. -/
  kept : ℕ
  /-- What an unfinished write has left after them. -/
  torn : Bytes
  /-- The active part is listed in the manifest, too. -/
  tailSealed : Bool
  /-- What an unfinished manifest append has left. -/
  tornLine : Bytes

/-- The line that lists a part with these records. -/
def groupLine (N part : ℕ) (group : List Record) : ManifestLine :=
  .sealed (sealEntry ⟨N, part⟩ ((group.head?.map Record.seq).getD 0) ((lastSeqOf group).getD 0)
    (encodeAll group))

def groupLines (N : ℕ) (groups : List (List Record)) : List ManifestLine :=
  groups.mapIdx fun i group => groupLine N (i + 1) group

theorem groupLines_concat (N : ℕ) (groups : List (List Record)) (group : List Record) :
    groupLines N (groups ++ [group]) = groupLines N groups ++ [groupLine N (groups.length + 1) group] := by
  simp [groupLines, List.mapIdx_append]

namespace Image

variable (img : Image)

/-- Nothing but an empty first part. -/
def initial : Image := ⟨[], [], 0, [], false, []⟩

/-- All records, in the order in which they were published. -/
def records : List Record := img.rotated.flatten ++ img.current

/-- The bytes of the parts. -/
def files : List Bytes := img.rotated.map encodeAll ++ [encodeAll img.current ++ img.torn]

/-- The number of the active part. -/
def part : ℕ := img.rotated.length + 1

/-- The parts that are listed in the manifest. -/
def listed : List (List Record) :=
  if img.tailSealed then img.rotated ++ [img.current] else img.rotated

/-- How many records are synced. -/
def synced : ℕ := img.rotated.flatten.length + img.kept

/-- Only a part with records, all of them synced, is being listed. -/
structure Valid (N : ℕ) : Prop where
  rotated : ∀ group ∈ img.rotated, group ≠ []
  kept : img.kept ≤ img.current.length
  whole : img.tailSealed = true ∨ img.tornLine ≠ [] →
    img.current ≠ [] ∧ img.kept = img.current.length ∧ img.torn = []
  line : img.tornLine <+: (groupLine N img.part img.current).render
  once : img.tailSealed = true → img.tornLine = []

end Image

/-- The directory has the image as its incarnation `N`, and is otherwise the one
the incarnation started from. -/
structure Shape (N : ℕ) (base : Dir) (img : Image) (d : Dir) : Prop where
  rotated : ∀ i group, img.rotated[i]? = some group →
    d.parts.get? ⟨N, i + 1⟩ = some ⟨encodeAll group, []⟩
  current : ∃ file, d.parts.get? ⟨N, img.part⟩ = some file ∧
    file.data = encodeAll img.current ++ img.torn ∧
    encodeAll (img.current.take img.kept) <+: file.durable
  absent : ∀ part, part = 0 ∨ img.part < part → d.parts.get? ⟨N, part⟩ = none
  others : ∀ seg : Seg, seg.incarnation ≠ N → d.parts.get? seg = base.parts.get? seg
  text : d.manifestText = base.manifestText ++ renderAll (groupLines N img.listed) ++ img.tornLine
  durable : base.manifestDurable = base.manifestText →
    base.manifestText ++ renderAll (groupLines N img.listed) <+: d.manifestDurable

namespace Shape

variable {N : ℕ} {base d : Dir} {img : Image}

/-- What an effect on the active part leaves alone. -/
theorem of_current (h : Shape N base img d) {e : Effect} (he : e.part? = some ⟨N, img.part⟩)
    {img' : Image} (hrot : img'.rotated = img.rotated) (hline : img'.tornLine = img.tornLine)
    (hlist : img'.listed = img.listed)
    (hcur : ∃ file, (e.apply d).parts.get? ⟨N, img.part⟩ = some file ∧
      file.data = encodeAll img'.current ++ img'.torn ∧
      encodeAll (img'.current.take img'.kept) <+: file.durable) :
    Shape N base img' (e.apply d) := by
  have hpart : img'.part = img.part := by rw [Image.part, hrot, Image.part]
  have hne : ∀ seg : Seg, seg ≠ ⟨N, img.part⟩ → (e.apply d).parts.get? seg = d.parts.get? seg := by
    intro seg hseg
    refine get?_apply_of_ne (fun h' => hseg ?_) d
    rw [he] at h'
    exact (Option.some.inj h').symm
  have hmanifest : e.appended = [] ∧ e ≠ .syncManifest := by
    cases e <;> simp_all [Effect.part?, Effect.appended]
  refine ⟨fun i group hi => ?_, ?_, fun part hp => ?_, fun seg hseg => ?_, ?_, fun hbase => ?_⟩
  · rw [hrot] at hi
    have hlt := (List.getElem?_eq_some_iff.mp hi).1
    rw [hne _ (by simp [Image.part]; omega)]
    exact h.rotated i group hi
  · rw [hpart]
    exact hcur
  · rw [hpart] at hp
    rw [hne _ (by simp [Image.part] at hp ⊢; omega)]
    exact h.absent part hp
  · rw [hne _ (fun heq => hseg (by rw [heq]))]
    exact h.others seg hseg
  · rw [manifestText_apply, hmanifest.1, List.append_nil, h.text, hlist, hline]
  · rw [manifestDurable_apply hmanifest.2, hlist]
    exact h.durable hbase

theorem syncPart (h : Shape N base img d) (htorn : img.torn = []) :
    Shape N base { img with kept := img.current.length } ((Effect.syncPart ⟨N, img.part⟩).apply d) := by
  obtain ⟨file, hfile, hdata, -⟩ := h.current
  refine h.of_current rfl rfl rfl rfl ⟨file.sync, ?_, ?_, ?_⟩
  · rw [Effect.apply, SortedMap.get?_adjust, if_pos rfl, hfile]
    rfl
  · rw [File.data_sync, hdata]
  · simp only [List.take_length, File.sync, hdata, htorn, List.append_nil]
    exact List.prefix_refl _

theorem writePart (h : Shape N base img d) (bytes : Bytes) :
    Shape N base { img with torn := img.torn ++ bytes }
      ((Effect.writePart ⟨N, img.part⟩ bytes).apply d) := by
  obtain ⟨file, hfile, hdata, hdur⟩ := h.current
  refine h.of_current rfl rfl rfl rfl ⟨file.write bytes, ?_, ?_, hdur⟩
  · rw [Effect.apply, SortedMap.get?_adjust, if_pos rfl, hfile]
    rfl
  · rw [File.data_write, hdata, List.append_assoc]

/-- An effect on the manifest leaves the parts alone. -/
theorem of_manifest (h : Shape N base img d) {e : Effect} (he : e.part? = none) {img' : Image}
    (hrot : img'.rotated = img.rotated) (hcur : img'.current = img.current)
    (hkept : img'.kept = img.kept) (htorn : img'.torn = img.torn)
    (htext : (e.apply d).manifestText =
      base.manifestText ++ renderAll (groupLines N img'.listed) ++ img'.tornLine)
    (hdur : base.manifestDurable = base.manifestText →
      base.manifestText ++ renderAll (groupLines N img'.listed) <+: (e.apply d).manifestDurable) :
    Shape N base img' (e.apply d) := by
  have hget : ∀ seg, (e.apply d).parts.get? seg = d.parts.get? seg := fun seg =>
    get?_apply_of_ne (by rw [he]; exact nofun) d
  have hpart : img'.part = img.part := by rw [Image.part, hrot, Image.part]
  refine ⟨fun i group hi => ?_, ?_, fun part hp => ?_, fun seg hseg => ?_, htext, hdur⟩
  · rw [hget]
    exact h.rotated i group (hrot ▸ hi)
  · rw [hget, hpart, hcur, hkept, htorn]
    exact h.current
  · rw [hget]
    exact h.absent part (hpart ▸ hp)
  · rw [hget]
    exact h.others seg hseg

theorem appendManifest (h : Shape N base img d) (bytes : Bytes) :
    Shape N base { img with tornLine := img.tornLine ++ bytes }
      ((Effect.appendManifest bytes).apply d) := by
  refine h.of_manifest rfl rfl rfl rfl rfl ?_ fun hbase => ?_
  · rw [manifestText_apply, h.text, List.append_assoc]
    rfl
  · rw [manifestDurable_apply (by exact nofun)]
    exact h.durable hbase

/-- Once it is synced, the line that lists the active part is there for good. -/
theorem syncManifest (h : Shape N base img d) (hnot : img.tailSealed = false)
    (hline : img.tornLine = (groupLine N img.part img.current).render) :
    Shape N base { img with tailSealed := true, tornLine := [] } (Effect.syncManifest.apply d) := by
  have hlist : renderAll (groupLines N (img.rotated ++ [img.current])) =
      renderAll (groupLines N img.listed) ++ img.tornLine := by
    rw [groupLines_concat, renderAll, Lines.renderLines_append, hline, Image.listed, hnot]
    simp [renderAll, Lines.renderLines_cons, ManifestLine.render, Image.part]
  have htext : d.manifestText = base.manifestText ++ renderAll (groupLines N (img.rotated ++ [img.current])) := by
    rw [h.text, hlist, List.append_assoc]
  refine h.of_manifest rfl rfl rfl rfl rfl ?_ fun _ => ?_
  · rw [manifestText_apply, htext]
    rfl
  · rw [manifestDurable_syncManifest, htext]
    exact List.prefix_refl _

/-- The next part starts once the active one is sealed. -/
theorem createPart (h : Shape N base img d) (hseal : img.tailSealed = true)
    (hkept : img.kept = img.current.length) (htorn : img.torn = []) (hline : img.tornLine = []) :
    Shape N base ⟨img.rotated ++ [img.current], [], 0, [], false, []⟩
      ((Effect.createPart ⟨N, img.part + 1⟩).apply d) := by
  have hself : ((Effect.createPart ⟨N, img.part + 1⟩).apply d).parts.get? ⟨N, img.part + 1⟩ =
      some File.empty := by
    rw [Effect.apply, SortedMap.get?_insert, if_pos rfl]
  have hne : ∀ seg : Seg, seg ≠ ⟨N, img.part + 1⟩ →
      ((Effect.createPart ⟨N, img.part + 1⟩).apply d).parts.get? seg = d.parts.get? seg :=
    fun seg hseg => get?_apply_of_ne (by
      simp only [Effect.part?, ne_eq, Option.some.injEq]
      exact fun h' => hseg h'.symm) d
  have hlisted : img.listed = img.rotated ++ [img.current] := by rw [Image.listed, if_pos hseal]
  refine ⟨fun i group hi => ?_, ⟨File.empty, ?_, rfl, List.nil_prefix⟩, fun part hp => ?_,
    fun seg hseg => ?_, ?_, fun hbase => ?_⟩
  · have hlt : i < img.rotated.length + 1 := by
      have := (List.getElem?_eq_some_iff.mp hi).1
      simpa using this
    rw [hne _ (by simp [Image.part]; omega)]
    rcases Nat.lt_succ_iff_lt_or_eq.mp hlt with hlt | rfl
    · rw [List.getElem?_append_left hlt] at hi
      exact h.rotated i group hi
    · -- the part that is rotated out has nothing left to sync
      simp only [List.getElem?_concat_length, Option.some.injEq] at hi
      subst hi
      obtain ⟨file, hfile, hdata, hdur⟩ := h.current
      rw [htorn, List.append_nil] at hdata
      rw [hkept, List.take_length, ← hdata, File.data] at hdur
      have hpend : file.pending = [] := by
        have := hdur.length_le
        simp only [List.length_append] at this
        exact List.length_eq_zero_iff.mp (by omega)
      have heq : file = ⟨encodeAll img.current, []⟩ := by
        rw [File.data, hpend, List.append_nil] at hdata
        rw [← hdata, ← hpend]
      exact hfile.trans (congrArg some heq)
  · simpa [Image.part] using hself
  · simp only [Image.part, List.length_append, List.length_singleton] at hp
    rw [hne _ (by simp [Image.part]; omega)]
    exact h.absent part (by rw [Image.part]; omega)
  · rw [hne _ (fun heq => hseg (by rw [heq]))]
    exact h.others seg hseg
  · rw [manifestText_apply, h.text, hlisted, hline]
    simp [Effect.appended, Image.listed]
  · have hdur := h.durable hbase
    rw [hlisted] at hdur
    rw [manifestDurable_apply (fun h => by cases h)]
    exact hdur

/-- A record that was written in full is one more record. -/
theorem finish (h : Shape N base img d) {r : Record} (htorn : img.torn = r.encode)
    (hkept : img.kept ≤ img.current.length) (hnot : img.tailSealed = false) :
    Shape N base { img with current := img.current ++ [r], torn := [] } d := by
  obtain ⟨file, hfile, hdata, hdur⟩ := h.current
  refine ⟨h.rotated, ⟨file, hfile, ?_, ?_⟩, h.absent, h.others, ?_, fun hbase => ?_⟩
  · rw [hdata, htorn, encodeAll_append]
    simp
  · rw [List.take_append_of_le_length hkept]
    exact hdur
  · rw [h.text, Image.listed, Image.listed, hnot]
    rfl
  · have hdur := h.durable hbase
    rw [Image.listed, hnot] at hdur
    rw [Image.listed, hnot]
    exact hdur

end Shape

/-! ### The writer's effects on images -/

namespace Image

/-- The image after an effect of the writer. -/
def after (img : Image) : Effect → Image
  | .createPart _ => ⟨img.rotated ++ [img.current], [], 0, [], false, []⟩
  | .writePart _ bytes => { img with torn := img.torn ++ bytes }
  | .syncPart _ => { img with kept := img.current.length }
  | .appendManifest bytes => { img with tornLine := img.tornLine ++ bytes }
  | .syncManifest => { img with tailSealed := true, tornLine := [] }
  | .setLen _ _ | .removePart _ | .syncDir => img

/-- An effect that the writer may take on the image while it appends `r`. -/
def Allowed (N : ℕ) (r : Record) (img : Image) : Effect → Prop
  | .createPart seg => seg = ⟨N, img.part + 1⟩ ∧ img.tailSealed = true
  | .writePart seg bytes => seg = ⟨N, img.part⟩ ∧ img.tailSealed = false ∧ img.tornLine = [] ∧
      img.torn ++ bytes <+: r.encode
  | .syncPart seg => seg = ⟨N, img.part⟩ ∧ img.torn = []
  | .appendManifest bytes => img.tailSealed = false ∧ img.tornLine = [] ∧ img.current ≠ [] ∧
      img.kept = img.current.length ∧ img.torn = [] ∧
      bytes <+: (groupLine N img.part img.current).render
  | .syncManifest => img.tailSealed = false ∧ img.tornLine = (groupLine N img.part img.current).render
  | .setLen _ _ | .removePart _ => False
  | .syncDir => True

/-- Between two tasks of the appender. -/
structure Settled (img : Image) : Prop where
  torn : img.torn = []
  tornLine : img.tornLine = []
  tailSealed : img.tailSealed = false

end Image

open Image

variable {N : ℕ} {base d : Dir} {img : Image} {r : Record} {e : Effect}

theorem render_ne_nil (line : ManifestLine) : line.render ≠ [] := by
  simp [ManifestLine.render]

theorem valid_after (h : img.Valid N) (ha : Allowed N r img e) : (img.after e).Valid N := by
  cases e with
  | createPart seg =>
    obtain ⟨-, hs⟩ := ha
    have hw := h.whole (.inl hs)
    refine ⟨fun group hg => ?_, le_rfl, fun hc => ?_, List.nil_prefix, fun _ => rfl⟩
    · rcases List.mem_append.mp hg with hg | hg
      · exact h.rotated group hg
      · rw [List.mem_singleton.mp hg]
        exact hw.1
    · rcases hc with hc | hc
      · cases hc
      · exact absurd rfl hc
  | writePart seg bytes =>
    obtain ⟨-, hs, hl, -⟩ := ha
    refine ⟨h.rotated, h.kept, fun hc => ?_, h.line, h.once⟩
    rcases hc with hc | hc
    · exact absurd (hs.symm.trans hc) (by decide)
    · exact absurd hl hc
  | syncPart seg =>
    refine ⟨h.rotated, le_rfl, fun hc => ?_, h.line, h.once⟩
    have hw := h.whole hc
    exact ⟨hw.1, rfl, hw.2.2⟩
  | appendManifest bytes =>
    obtain ⟨hs, hl, hne, hk, ht, hb⟩ := ha
    refine ⟨h.rotated, h.kept, fun _ => ⟨hne, hk, ht⟩, ?_, fun hc => ?_⟩
    · simpa [after, hl, part] using hb
    · exact absurd (hs.symm.trans hc) (by decide)
  | syncManifest =>
    obtain ⟨hs, hl⟩ := ha
    have hw := h.whole (.inr (by rw [hl]; exact render_ne_nil _))
    exact ⟨h.rotated, h.kept, fun _ => hw, List.nil_prefix, fun _ => rfl⟩
  | setLen _ _ => exact ha.elim
  | removePart _ => exact ha.elim
  | syncDir => exact h

/-- **Simulation.** What the writer does to the directory it does to the image. -/
theorem shape_after (h : Shape N base img d) (hv : img.Valid N) (ha : Allowed N r img e) :
    Shape N base (img.after e) (e.apply d) := by
  cases e with
  | createPart seg =>
    obtain ⟨rfl, hs⟩ := ha
    have hw := hv.whole (.inl hs)
    exact h.createPart hs hw.2.1 hw.2.2 (hv.once hs)
  | writePart seg bytes =>
    obtain ⟨rfl, -⟩ := ha
    exact h.writePart bytes
  | syncPart seg =>
    obtain ⟨rfl, ht⟩ := ha
    exact h.syncPart ht
  | appendManifest bytes => exact h.appendManifest bytes
  | syncManifest => exact h.syncManifest ha.1 ha.2
  | setLen _ _ => exact ha.elim
  | removePart _ => exact ha.elim
  | syncDir => exact h

/-- No effect of the writer changes which records there are. -/
theorem records_after (ha : Allowed N r img e) : (img.after e).records = img.records := by
  cases e with
  | createPart seg => simp [after, records]
  | setLen _ _ => exact ha.elim
  | removePart _ => exact ha.elim
  | writePart _ _ | syncPart _ | appendManifest _ | syncManifest | syncDir => rfl

/-- What is synced stays synced. -/
theorem synced_after (hv : img.Valid N) (ha : Allowed N r img e) : img.synced ≤ (img.after e).synced := by
  cases e with
  | createPart seg =>
    have hw := hv.whole (.inl ha.2)
    simp [after, synced, hw.2.1]
  | syncPart seg =>
    have := hv.kept
    simp only [after, synced]
    omega
  | setLen _ _ => exact ha.elim
  | removePart _ => exact ha.elim
  | writePart _ _ | appendManifest _ | syncManifest | syncDir => exact le_rfl

/-- A write leaves a beginning of the record being appended. -/
theorem torn_after (h : img.torn <+: r.encode) (ha : Allowed N r img e) :
    (img.after e).torn <+: r.encode := by
  cases e with
  | createPart seg => exact List.nil_prefix
  | writePart seg bytes => exact ha.2.2.2
  | setLen _ _ => exact ha.elim
  | removePart _ => exact ha.elim
  | syncPart _ | appendManifest _ | syncManifest | syncDir => exact h

/-! ### The writer's tasks -/

/-- The image after effects. -/
def Image.afterAll (es : List Effect) (img : Image) : Image := applyAll (fun e img => img.after e) es img

/-- The effects are allowed one after another. -/
def AllAllowed (N : ℕ) (r : Record) (es : List Effect) (img : Image) : Prop :=
  Along (fun e img => img.after e) (Allowed N r) es img

theorem afterAll_append (es es' : List Effect) (img : Image) :
    img.afterAll (es ++ es') = (img.afterAll es).afterAll es' := applyAll_append es es' img

theorem allAllowed_append {es es' : List Effect} :
    AllAllowed N r (es ++ es') img ↔ AllAllowed N r es img ∧ AllAllowed N r es' (img.afterAll es) :=
  along_append

/-- The writer knows the active part. -/
structure Tracks (N : ℕ) (w : RollingSegmentWriter) (img : Image) : Prop where
  incarnation : w.incarnation = N
  part : w.part = img.part
  partBytes : w.partBytes = sizeAll img.current
  partFirstSeq : w.partFirstSeq = img.current.head?.map Record.seq
  partLastSeq : img.current ≠ [] → w.partLastSeq = (lastSeqOf img.current).getD 0
  partCrc : w.partCrc = Crc32.new.update (encodeAll img.current)

namespace Tracks

variable {w : RollingSegmentWriter}

theorem seg (h : Tracks N w img) : w.seg = ⟨N, img.part⟩ := by
  rw [RollingSegmentWriter.seg, h.incarnation, h.part]

/-- The entry the writer makes is the one of the records in the part. -/
theorem entry (h : Tracks N w img) (hne : img.current ≠ []) :
    ManifestLine.sealed (w.entry ((img.current.head?.map Record.seq).getD 0)) =
      groupLine N img.part img.current := by
  simp only [RollingSegmentWriter.entry, groupLine, sealEntry, h.incarnation, h.part, h.partBytes,
    h.partLastSeq hne, h.partCrc, Crc32.ofBytes, encodeAll_length]

theorem sealEffects (h : Tracks N w img) (hne : img.current ≠ []) :
    w.sealEffects = [.syncPart ⟨N, img.part⟩,
      .appendManifest (groupLine N img.part img.current).render, .syncManifest, .syncDir] := by
  obtain ⟨r, rs, hcons⟩ := List.exists_cons_of_ne_nil hne
  have hfirst : w.partFirstSeq = some ((img.current.head?.map Record.seq).getD 0) := by
    rw [h.partFirstSeq, hcons]
    rfl
  rw [RollingSegmentWriter.sealEffects, hfirst]
  simp only [h.seg, h.entry hne]

theorem sealEffects_nil (h : Tracks N w img) (hnil : img.current = []) : w.sealEffects = [] := by
  have hfirst : w.partFirstSeq = none := by rw [h.partFirstSeq, hnil]; rfl
  rw [RollingSegmentWriter.sealEffects, hfirst]

end Tracks

variable {w : RollingSegmentWriter}

/-- Sealing the active part. -/
theorem seal_allowed (ht : Tracks N w img) (hs : Settled img) (hne : img.current ≠ []) (r : Record) :
    AllAllowed N r w.sealEffects img ∧
      img.afterAll w.sealEffects = { img with kept := img.current.length, tailSealed := true } := by
  rw [ht.sealEffects hne]
  constructor
  · refine ⟨⟨rfl, hs.torn⟩, ⟨hs.tailSealed, hs.tornLine, hne, rfl, hs.torn, List.prefix_refl _⟩,
      ⟨hs.tailSealed, ?_⟩, trivial, trivial⟩
    simp [after, hs.tornLine, Image.part]
  · have hline := hs.tornLine
    simp [Image.afterAll, after, hline]

/-- Rolling over to the next part. -/
theorem roll_allowed (ht : Tracks N w img) (hs : Settled img) (hne : img.current ≠ []) (r : Record) :
    AllAllowed N r w.rollEffects img ∧
      img.afterAll w.rollEffects = ⟨img.rotated ++ [img.current], [], 0, [], false, []⟩ ∧
      Tracks N w.rolled ⟨img.rotated ++ [img.current], [], 0, [], false, []⟩ := by
  obtain ⟨hseal, hafter⟩ := seal_allowed ht hs hne r
  obtain ⟨r', rs, hcons⟩ := List.exists_cons_of_ne_nil hne
  have hfirst : w.partFirstSeq = some r'.seq := by
    rw [ht.partFirstSeq, hcons]
    rfl
  have hrolled : w.rolled = { w with partFirstSeq := none, partCrc := .new, part := w.part + 1, partBytes := 0 } := by
    rw [RollingSegmentWriter.rolled, RollingSegmentWriter.unsealed, hfirst]
  have hseg : w.rolled.seg = ⟨N, img.part + 1⟩ := by
    simp only [hrolled, RollingSegmentWriter.seg, ht.incarnation, ht.part]
  refine ⟨?_, ?_, ?_⟩
  · rw [RollingSegmentWriter.rollEffects, allAllowed_append, hafter, hseg]
    exact ⟨hseal, ⟨rfl, rfl⟩, trivial, trivial⟩
  · rw [RollingSegmentWriter.rollEffects, afterAll_append, hafter]
    rfl
  · rw [hrolled]
    refine ⟨ht.incarnation, ?_, rfl, rfl, fun h => absurd rfl h, rfl⟩
    simp [ht.part, Image.part]

/-- The record is in the active part. -/
def Image.finish (img : Image) (r : Record) : Image := { img with current := img.current ++ [r], torn := [] }

theorem tracks_noted (ht : Tracks N w img) (r : Record) : Tracks N (w.noted r) (img.finish r) := by
  refine ⟨ht.incarnation, ht.part, ?_, ?_, fun _ => ?_, ?_⟩
  · simp [RollingSegmentWriter.noted, Image.finish, ht.partBytes]
  · rcases hc : img.current with _ | ⟨r', rs⟩
    · simp [RollingSegmentWriter.noted, Image.finish, ht.partFirstSeq, hc]
    · simp [RollingSegmentWriter.noted, Image.finish, ht.partFirstSeq, hc]
  · simp [RollingSegmentWriter.noted, Image.finish, lastSeqOf]
  · simp only [RollingSegmentWriter.noted, Image.finish, ht.partCrc, encodeAll_append, encodeAll_cons,
      encodeAll_nil, List.append_nil, Record.encode, Crc32.update_append, List.append_assoc]

/-- Writing a record into the active part. -/
theorem write_allowed (ht : Tracks N w img) (hs : Settled img) (r : Record) :
    let writes : List Effect := [.writePart w.seg (encodeRecordHeader r.kind r.seq r.elapsedMs r.payload),
      .writePart w.seg r.payload]
    AllAllowed N r writes img ∧ img.afterAll writes = { img with torn := r.encode } := by
  have hseg := ht.seg
  constructor
  · refine ⟨⟨hseg, hs.tailSealed, hs.tornLine, ?_⟩, ⟨hseg, hs.tailSealed, hs.tornLine, ?_⟩, trivial⟩
    · rw [hs.torn]
      exact List.prefix_append _ _
    · simp only [after, hs.torn, List.nil_append]
      exact List.prefix_refl _
  · simp [Image.afterAll, after, hs.torn, Record.encode]

/-- The record stands after the others in the active part, and the writer knows
it. -/
structure Appended (N : ℕ) (r : Record) (w : RollingSegmentWriter) (img : Image) : Prop where
  torn : img.torn = r.encode
  tailSealed : img.tailSealed = false
  tornLine : img.tornLine = []
  tracks : Tracks N w (img.finish r)

theorem append_allowed (ht : Tracks N w img) (hs : Settled img) (r : Record) :
    AllAllowed N r (w.appendEffects r) img ∧
      Appended N r ((w.target r).noted r) (img.afterAll (w.appendEffects r)) := by
  by_cases hfull : w.isFull r.size = true
  · -- the active part is full, so it holds a record
    have hne : img.current ≠ [] := by
      intro h0
      have hpos := (of_decide_eq_true hfull).1
      rw [ht.partBytes, h0] at hpos
      exact lt_irrefl _ hpos
    obtain ⟨hroll, hafter, htr⟩ := roll_allowed ht hs hne r
    obtain ⟨hw, hwa⟩ := write_allowed htr ⟨rfl, rfl, rfl⟩ r
    have htarget : w.target r = w.rolled := by rw [RollingSegmentWriter.target, if_pos hfull]
    rw [RollingSegmentWriter.appendEffects, if_pos hfull, htarget, allAllowed_append, afterAll_append,
      hafter]
    refine ⟨⟨hroll, hw⟩, ?_⟩
    rw [hwa]
    exact ⟨rfl, rfl, rfl, tracks_noted htr r⟩
  · obtain ⟨hw, hwa⟩ := write_allowed ht hs r
    have htarget : w.target r = w := by rw [RollingSegmentWriter.target, if_neg hfull]
    rw [RollingSegmentWriter.appendEffects, if_neg hfull, htarget, List.nil_append]
    refine ⟨hw, ?_⟩
    rw [hwa]
    exact ⟨rfl, hs.tailSealed, hs.tornLine, tracks_noted ht r⟩

/-! ### The bytes of an incarnation -/

/-- The parts of an incarnation, ascending. -/
def Dir.incarnationSegs (d : Dir) (N : ℕ) : List Seg :=
  d.listSegments.filter fun seg => seg.incarnation = N

/-- The bytes of an incarnation's parts, one after another. -/
def Dir.incarnationData (d : Dir) (N : ℕ) : Bytes :=
  (d.incarnationSegs N).flatMap fun seg => (d.partData seg).getD []

theorem mem_incarnationSegs {d : Dir} {N : ℕ} {seg : Seg} :
    seg ∈ d.incarnationSegs N ↔ (d.parts.get? seg).isSome ∧ seg.incarnation = N := by
  rw [Dir.incarnationSegs, List.mem_filter, mem_listSegments, Dir.partData, Option.isSome_map,
    decide_eq_true_eq]

/-- An incarnation with the parts `files`, numbered from 1 on. -/
theorem incarnation_files {d : Dir} {N : ℕ} {files : List Bytes} (hzero : d.partData ⟨N, 0⟩ = none)
    (hfiles : ∀ i, d.partData ⟨N, i + 1⟩ = files[i]?) :
    d.incarnationSegs N = (List.range' 1 files.length).map (fun part => ⟨N, part⟩) ∧
      (d.incarnationSegs N).map (fun seg => (d.partData seg).getD []) = files := by
  have hsegs : d.incarnationSegs N = (List.range' 1 files.length).map fun part => ⟨N, part⟩ := by
    refine SortedMap.eq_of_ascending (d.parts.keys_pairwise.filter _) ?_ fun seg => ?_
    · rw [List.pairwise_map]
      have hasc : (List.range' 1 files.length).Pairwise (· < ·) := List.pairwise_lt_range'
      refine hasc.imp ?_
      intro a b hlt
      exact Seg.lt_iff.mpr (.inr ⟨rfl, hlt⟩)
    · rw [Dir.incarnationSegs, List.mem_filter, mem_listSegments, decide_eq_true_eq, List.mem_map]
      constructor
      · rintro ⟨hs, rfl⟩
        obtain ⟨N, _ | i⟩ := seg
        · rw [hzero] at hs
          cases hs
        · rw [hfiles, isSome_getElem?] at hs
          exact ⟨i + 1, List.mem_range'_1.mpr (by omega), rfl⟩
      · rintro ⟨part, hp, rfl⟩
        obtain ⟨i, rfl⟩ : ∃ i, part = i + 1 := ⟨part - 1, by have := List.mem_range'_1.mp hp; omega⟩
        refine ⟨?_, rfl⟩
        rw [hfiles, isSome_getElem?]
        have := List.mem_range'_1.mp hp
        omega
  refine ⟨hsegs, ?_⟩
  rw [hsegs, List.map_map]
  refine List.ext_getElem (by simp) fun i hi hi' => ?_
  simp only [List.getElem_map, List.getElem_range', Function.comp_apply, Nat.one_mul]
  rw [Nat.add_comm 1 i, hfiles, List.getElem?_eq_getElem hi']
  rfl

namespace Shape

/-- The parts of the incarnation are the ones from 1 to the active one. -/
theorem get?_isSome_iff (h : Shape N base img d) (part : ℕ) :
    (d.parts.get? ⟨N, part⟩).isSome ↔ 1 ≤ part ∧ part ≤ img.part := by
  constructor
  · intro hs
    by_contra hc
    rw [h.absent part (by omega)] at hs
    cases hs
  · rintro ⟨h1, h2⟩
    rcases h2.lt_or_eq with hlt | rfl
    · obtain ⟨i, rfl⟩ : ∃ i, part = i + 1 := ⟨part - 1, by omega⟩
      have hi : i < img.rotated.length := by rw [Image.part] at hlt; omega
      rw [h.rotated i _ (List.getElem?_eq_getElem hi)]
      rfl
    · obtain ⟨file, hfile, -⟩ := h.current
      rw [hfile]
      rfl

theorem partData_rotated (h : Shape N base img d) {i : ℕ} {group : List Record}
    (hi : img.rotated[i]? = some group) : d.partData ⟨N, i + 1⟩ = some (encodeAll group) := by
  rw [Dir.partData, h.rotated i group hi]
  simp [File.data]

theorem partData_current (h : Shape N base img d) :
    d.partData ⟨N, img.part⟩ = some (encodeAll img.current ++ img.torn) := by
  obtain ⟨file, hfile, hdata, -⟩ := h.current
  rw [Dir.partData, hfile, Option.map_some, hdata]

/-- The bytes of the parts, part by part. -/
theorem partData_files (h : Shape N base img d) (i : ℕ) : d.partData ⟨N, i + 1⟩ = img.files[i]? := by
  rcases Nat.lt_trichotomy i img.rotated.length with hlt | rfl | hgt
  · rw [Image.files, List.getElem?_append_left (by simpa using hlt), List.getElem?_map,
      List.getElem?_eq_getElem hlt, h.partData_rotated (List.getElem?_eq_getElem hlt)]
    rfl
  · rw [← Image.part, h.partData_current]
    simp [Image.files]
  · rw [List.getElem?_eq_none (by simp [Image.files]; omega), Dir.partData,
      h.absent (i + 1) (.inr (by rw [Image.part]; omega))]
    rfl

theorem partData_zero (h : Shape N base img d) : d.partData ⟨N, 0⟩ = none := by
  rw [Dir.partData, h.absent 0 (.inl rfl)]
  rfl

end Shape

theorem encodeAll_flatten : ∀ groups : List (List Record),
    encodeAll groups.flatten = (groups.map encodeAll).flatten
  | [] => rfl
  | group :: groups => by
    rw [List.flatten_cons, encodeAll_append, encodeAll_flatten groups, List.map_cons, List.flatten_cons]

/-- What a crash leaves of the incarnation: everything that was synced. -/
theorem incarnationData_crash (h : Shape N base img d) (cut : Seg → ℕ) (manifestCut : ℕ) :
    encodeAll (img.rotated.flatten ++ img.current.take img.kept) <+:
      (d.crash cut manifestCut).incarnationData N := by
  obtain ⟨file, hfile, -, hdur⟩ := h.current
  have hzero : (d.crash cut manifestCut).partData ⟨N, 0⟩ = none := by
    rw [Dir.crash_partData, h.absent 0 (.inl rfl)]
    rfl
  have hfiles : ∀ i, (d.crash cut manifestCut).partData ⟨N, i + 1⟩ = (img.rotated.map encodeAll ++
      [file.durable ++ file.pending.take (cut ⟨N, img.part⟩)])[i]? := by
    intro i
    rw [Dir.crash_partData]
    rcases Nat.lt_trichotomy i img.rotated.length with hlt | rfl | hgt
    · rw [h.rotated i _ (List.getElem?_eq_getElem hlt), List.getElem?_append_left (by simpa using hlt),
        List.getElem?_map, List.getElem?_eq_getElem hlt]
      simp
    · rw [← Image.part, hfile]
      simp
    · rw [h.absent (i + 1) (.inr (by rw [Image.part]; omega)), List.getElem?_eq_none (by simp; omega)]
      rfl
  rw [Dir.incarnationData, List.flatMap_def, (incarnation_files hzero hfiles).2, List.flatten_append,
    ← encodeAll_flatten, encodeAll_append]
  refine (List.prefix_append_right_inj _).mpr ?_
  simpa using hdur.trans (List.prefix_append _ _)

/-- The incarnation's parts hold its records, and what is torn. -/
theorem incarnationData_eq (h : Shape N base img d) :
    d.incarnationData N = encodeAll img.records ++ img.torn := by
  rw [Dir.incarnationData, List.flatMap_def, (incarnation_files h.partData_zero h.partData_files).2,
    Image.files, List.flatten_append, ← encodeAll_flatten, Image.records, encodeAll_append]
  simp

/-! ### Crashes -/

/-- The records of the active part that may have reached the disk: while a
record is being written, this one, too. -/
def Image.reached (img : Image) (r : Record) : List Record :=
  if img.torn = [] then img.current else img.current ++ [r]

/-- What a crash leaves of an image: of the active part at least the synced
records, and perhaps the beginning of the next one. -/
structure CrashImage (N : ℕ) (r : Record) (img img' : Image) : Prop where
  rotated : img'.rotated = img.rotated
  tailSealed : img'.tailSealed = img.tailSealed
  current : img'.current = (img.reached r).take img'.current.length
  kept : img.kept ≤ img'.current.length
  torn : img'.torn = [] ∨ ∃ r', (img.reached r)[img'.current.length]? = some r' ∧
    img'.torn <+: r'.encode ∧ img'.torn.length < r'.size
  tornLine : img'.tornLine <+: img.tornLine
  valid : img'.Valid N

/-- More records take more bytes. -/
theorem sizeAll_take_lt {rs : List Record} {j k : ℕ} {r : Record} (hr : rs[j]? = some r) (hjk : j < k) :
    sizeAll (rs.take j) + r.size ≤ sizeAll (rs.take k) := by
  obtain ⟨hlt, rfl⟩ := List.getElem?_eq_some_iff.mp hr
  have hsplit : rs.take k = rs.take (j + 1) ++ (rs.take k).drop (j + 1) := by
    conv_lhs => rw [← List.take_append_drop (j + 1) (rs.take k)]
    rw [List.take_take, Nat.min_eq_left (by omega)]
  have hone : rs.take (j + 1) = rs.take j ++ [rs[j]] := List.take_succ_eq_append_getElem hlt
  rw [hsplit, hone]
  simp only [sizeAll_append, sizeAll_cons, sizeAll_nil]
  omega

/-- The bytes a crash keeps of the active part, as records. -/
theorem crash_current (hkept : img.kept ≤ img.current.length) (htorn : img.torn <+: r.encode)
    {durable p : Bytes} (hdur : encodeAll (img.current.take img.kept) <+: durable)
    (hd : durable <+: p) (hp : p <+: encodeAll img.current ++ img.torn) :
    ∃ j torn, img.kept ≤ j ∧ j ≤ (img.reached r).length ∧
      p = encodeAll ((img.reached r).take j) ++ torn ∧
      (torn = [] ∨ ∃ r', (img.reached r)[j]? = some r' ∧ torn <+: r'.encode ∧ torn.length < r'.size) := by
  have hreach : p <+: encodeAll (img.reached r) := by
    refine hp.trans ?_
    unfold Image.reached
    split
    · rename_i h0
      rw [h0, List.append_nil]
    · rw [encodeAll_append]
      refine (List.prefix_append_right_inj _).mpr ?_
      simpa using htorn
  have htake : (img.reached r).take img.kept = img.current.take img.kept := by
    unfold Image.reached
    split
    · rfl
    · exact List.take_append_of_le_length hkept
  obtain ⟨j, torn, hj, hpeq, ht⟩ := prefix_encodeAll hreach
  refine ⟨j, torn, ?_, hj, hpeq, ht⟩
  -- with fewer records than the synced ones the bytes would not reach that far
  by_contra hlt
  have hlen := (hdur.trans hd).length_le
  rw [hpeq, ← htake, List.length_append, encodeAll_length, encodeAll_length] at hlen
  have hjlt : j < (img.reached r).length := by
    have := hkept
    have hle : img.current.length ≤ (img.reached r).length := by
      unfold Image.reached
      split <;> simp
    omega
  have hmore := sizeAll_take_lt (List.getElem?_eq_getElem hjlt) (not_le.mp hlt)
  have hpos := size_pos (img.reached r)[j]
  rcases ht with rfl | ⟨r', hr', -, hlt'⟩
  · simp only [List.length_nil] at hlen
    omega
  · rw [List.getElem?_eq_getElem hjlt] at hr'
    cases hr'
    omega

/-- **A crash has an image, too.** -/
theorem Shape.crash (h : Shape N base img d) (hv : img.Valid N) (hrest : base.AtRest)
    (htorn : img.torn <+: r.encode) (cut : Seg → ℕ) (manifestCut : ℕ) :
    ∃ img', Shape N base img' (d.crash cut manifestCut) ∧ CrashImage N r img img' := by
  obtain ⟨file, hfile, hdata, hdur⟩ := h.current
  obtain ⟨hpre1, hpre2⟩ := file.crash_prefix (cut ⟨N, img.part⟩)
  rw [hdata] at hpre2
  obtain ⟨j, torn', hkj, hj, hp, ht⟩ := crash_current hv.kept htorn hdur hpre1 hpre2
  -- of the manifest, the lines stay, and a beginning of the unfinished one
  obtain ⟨line, hline, hlpre⟩ : ∃ line, (d.crash cut manifestCut).manifestText =
      base.manifestText ++ renderAll (groupLines N img.listed) ++ line ∧ line <+: img.tornLine := by
    obtain ⟨kept, hktext, hkpre⟩ := d.crash_manifestText cut manifestCut
    obtain ⟨more, hmore⟩ := h.durable hrest.manifestDurable
    rw [← hmore, List.append_assoc] at hkpre hktext
    refine ⟨more ++ kept, hktext, ?_⟩
    rw [h.text] at hkpre
    exact (List.prefix_append_right_inj _).mp hkpre
  have hlen : ((img.reached r).take j).length = j := by simpa using hj
  have hwhole : img.tailSealed = true ∨ line ≠ [] →
      (img.reached r).take j = img.current ∧ img.current ≠ [] ∧ torn' = [] := by
    intro hc
    have hc' : img.tailSealed = true ∨ img.tornLine ≠ [] :=
      hc.imp_right fun hne h0 => hne (by rw [h0] at hlpre; exact List.prefix_nil.mp hlpre)
    obtain ⟨hne, hk, ht0⟩ := hv.whole hc'
    have hreached : img.reached r = img.current := by rw [Image.reached, if_pos ht0]
    rw [hreached] at hj ht ⊢
    have hjeq : j = img.current.length := by omega
    refine ⟨by rw [hjeq, List.take_length], hne, ht.resolve_right ?_⟩
    rintro ⟨r', hr', -⟩
    rw [hjeq, List.getElem?_eq_none (le_refl _)] at hr'
    cases hr'
  refine ⟨⟨img.rotated, (img.reached r).take j, j, torn', img.tailSealed, line⟩, ?_, ?_⟩
  · have hlisted : (⟨img.rotated, (img.reached r).take j, j, torn', img.tailSealed, line⟩ : Image).listed =
        img.listed := by
      unfold Image.listed
      by_cases hs : img.tailSealed = true
      · simp only [hs, if_true, (hwhole (.inl hs)).1]
      · simp only [hs, Bool.false_eq_true, if_false]
    refine ⟨fun i group hi => ?_, ⟨file.crash (cut ⟨N, img.part⟩), ?_, hp, ?_⟩, fun part hpart => ?_,
      fun seg hseg => ?_, ?_, fun _ => ?_⟩
    · rw [Dir.crash_get?, h.rotated i group hi]
      simp [File.crash]
    · rw [Dir.crash_get?]
      simp only [Image.part] at hfile ⊢
      rw [hfile]
      rfl
    · have hall : ((img.reached r).take j).take j = (img.reached r).take j := by
        rw [List.take_take, Nat.min_self]
      simp only [hall]
      have hdurable : (file.crash (cut ⟨N, img.part⟩)).durable = (file.crash (cut ⟨N, img.part⟩)).data := by
        simp [File.crash, File.data]
      rw [hdurable, hp]
      exact List.prefix_append _ _
    · rw [Dir.crash_get?, h.absent part hpart]
      rfl
    · rw [Dir.crash_get?, h.others seg hseg, ← Dir.crash_get? base cut manifestCut, hrest.crash_get?]
    · rw [hline, hlisted]
    · rw [(d.crash_atRest cut manifestCut).manifestDurable, hline, hlisted]
      exact List.prefix_append _ _
  · refine ⟨rfl, rfl, by rw [hlen], by rw [hlen]; exact hkj, by rw [hlen]; exact ht, hlpre, ?_⟩
    refine ⟨hv.rotated, hlen.ge, fun hc => ?_, ?_, fun hs => ?_⟩
    · obtain ⟨h1, h2, h3⟩ := hwhole hc
      exact ⟨by rw [h1]; exact h2, hlen.symm, h3⟩
    · by_cases h0 : line = []
      · simp only [h0]
        exact List.nil_prefix
      · simp only [(hwhole (.inr h0)).1]
        exact hlpre.trans hv.line
    · have := hv.once hs
      rw [this] at hlpre
      exact List.prefix_nil.mp hlpre

end Journal
end OpenRelay
