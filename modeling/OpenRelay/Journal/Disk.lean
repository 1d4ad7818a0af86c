/-
# The journal directory

A session's journal directory holds segment parts, `seg-NNNNNNNN-PPPP.ojrn`,
and the manifest. What the journal's code does to it is a sequence of effects:
create, write, sync, truncate and remove parts, append to the manifest and sync
it. A crash keeps of every file what was synced and some of what was written
since.

Directory entries are taken as durable once made: the code syncs the directory
after every creation and removal.
-/
import Mathlib.Data.Prod.Lex
import OpenRelay.Journal.Manifest
import OpenRelay.Journal.Scan
import OpenRelay.Lib.Effects
import OpenRelay.Lib.SortedMap

namespace OpenRelay
namespace Journal

open Effects LittleEndian

/-! ### Segment parts -/

/-- The name of a segment part. Sequences go on from part to part of one
incarnation. -/
@[ext] structure Seg where
  incarnation : ℕ
  part : ℕ
  deriving DecidableEq, Repr

/-- Parts are listed by incarnation, then by part. -/
instance : LinearOrder Seg :=
  LinearOrder.lift' (fun seg => toLex (seg.incarnation, seg.part)) fun a b h => by
    simpa [Seg.ext_iff] using h

theorem Seg.le_iff {a b : Seg} :
    a ≤ b ↔ a.incarnation < b.incarnation ∨ a.incarnation = b.incarnation ∧ a.part ≤ b.part :=
  Prod.Lex.toLex_le_toLex (x := (a.incarnation, a.part)) (y := (b.incarnation, b.part))

theorem Seg.lt_iff {a b : Seg} :
    a < b ↔ a.incarnation < b.incarnation ∨ a.incarnation = b.incarnation ∧ a.part < b.part :=
  Prod.Lex.toLex_lt_toLex (x := (a.incarnation, a.part)) (y := (b.incarnation, b.part))

/-- A file: what was synced, and what was written since. -/
structure File where
  durable : Bytes
  pending : Bytes
  deriving DecidableEq, Repr

namespace File

def empty : File := ⟨[], []⟩

/-- What a reader sees. -/
def data (f : File) : Bytes := f.durable ++ f.pending

/-- Bytes are added, and would not outlive a crash yet. -/
def write (f : File) (bytes : Bytes) : File := { f with pending := f.pending ++ bytes }

/-- All of the file would outlive a crash. -/
def sync (f : File) : File := ⟨f.data, []⟩

def setLen (f : File) (n : ℕ) : File :=
  ⟨f.durable.take n, f.pending.take (n - f.durable.length)⟩

/-- A crash keeps `n` of the bytes that were not synced. -/
def crash (f : File) (n : ℕ) : File := ⟨f.durable ++ f.pending.take n, []⟩

@[simp] theorem data_empty : empty.data = [] := rfl

@[simp] theorem data_write (f : File) (bytes : Bytes) : (f.write bytes).data = f.data ++ bytes := by
  simp [data, write]

@[simp] theorem data_sync (f : File) : f.sync.data = f.data := by simp [data, sync]

@[simp] theorem data_setLen (f : File) (n : ℕ) : (f.setLen n).data = f.data.take n := by
  simp [data, setLen, List.take_append]

@[simp] theorem data_crash (f : File) (n : ℕ) :
    (f.crash n).data = f.durable ++ f.pending.take n := by
  simp [data, crash]

/-- A crash leaves a prefix of what was written that includes what was synced. -/
theorem crash_prefix (f : File) (n : ℕ) :
    f.durable <+: (f.crash n).data ∧ (f.crash n).data <+: f.data := by
  rw [data_crash]
  exact ⟨List.prefix_append _ _, (List.prefix_append_right_inj _).mpr (List.take_prefix _ _)⟩

end File

/-- A journal directory. -/
structure Dir where
  parts : SortedMap Seg File
  manifest : Option File
  deriving DecidableEq

/-- What is done to a journal's directory, one call at a time. -/
inductive Effect where
  | createPart (seg : Seg)
  | writePart (seg : Seg) (bytes : Bytes)
  | syncPart (seg : Seg)
  | setLen (seg : Seg) (n : ℕ)
  | removePart (seg : Seg)
  | appendManifest (bytes : Bytes)
  | syncManifest
  | syncDir
  deriving DecidableEq, Repr

namespace Dir

/-- A directory that has just been made. -/
def empty : Dir := ⟨.empty, none⟩

/-- What a reader sees of a part. -/
def partData (d : Dir) (seg : Seg) : Option Bytes := (d.parts.get? seg).map File.data

/-- The text of the manifest; a missing manifest reads as an empty one. -/
def manifestText (d : Dir) : Bytes := (d.manifest.map File.data).getD []

/-- What a crash keeps of the manifest at least. -/
def manifestDurable (d : Dir) : Bytes := (d.manifest.map File.durable).getD []

/-- `list_segments`: ascending. -/
def listSegments (d : Dir) : List Seg := d.parts.keys

/-- The machine stops: every file keeps what was synced and a prefix of the
rest. -/
def crash (d : Dir) (cut : Seg → ℕ) (manifestCut : ℕ) : Dir where
  parts := d.parts.mapVals fun seg f => f.crash (cut seg)
  manifest := d.manifest.map fun f => f.crash manifestCut

/-- Nothing is waiting to be synced. -/
structure AtRest (d : Dir) : Prop where
  parts : ∀ seg file, d.parts.get? seg = some file → file.pending = []
  manifest : ∀ file, d.manifest = some file → file.pending = []

theorem crash_atRest (d : Dir) (cut : Seg → ℕ) (manifestCut : ℕ) : (d.crash cut manifestCut).AtRest := by
  refine ⟨fun seg file h => ?_, fun file h => ?_⟩
  · simp only [crash, SortedMap.get?_mapVals, Option.map_eq_some_iff] at h
    obtain ⟨f, -, rfl⟩ := h
    rfl
  · simp only [crash, Option.map_eq_some_iff] at h
    obtain ⟨f, -, rfl⟩ := h
    rfl

theorem crash_get? (d : Dir) (cut : Seg → ℕ) (manifestCut : ℕ) (seg : Seg) :
    (d.crash cut manifestCut).parts.get? seg = (d.parts.get? seg).map fun f => f.crash (cut seg) := by
  simp only [crash, SortedMap.get?_mapVals]

theorem crash_partData (d : Dir) (cut : Seg → ℕ) (manifestCut : ℕ) (seg : Seg) :
    (d.crash cut manifestCut).partData seg =
      (d.parts.get? seg).map fun f => f.durable ++ f.pending.take (cut seg) := by
  rw [partData, crash_get?, Option.map_map]
  congr 1
  funext f
  simp

@[simp] theorem crash_listSegments (d : Dir) (cut : Seg → ℕ) (manifestCut : ℕ) :
    (d.crash cut manifestCut).listSegments = d.listSegments := by
  simp only [crash, listSegments, SortedMap.keys_mapVals]

/-- A crash keeps of the manifest what was synced, and a beginning of the rest. -/
theorem crash_manifestText (d : Dir) (cut : Seg → ℕ) (manifestCut : ℕ) :
    ∃ kept, (d.crash cut manifestCut).manifestText = d.manifestDurable ++ kept ∧
      d.manifestDurable ++ kept <+: d.manifestText := by
  rcases hm : d.manifest with _ | f
  · exact ⟨[], by simp [manifestText, manifestDurable, crash, hm], by simp [manifestDurable, hm]⟩
  · refine ⟨f.pending.take manifestCut, by simp [manifestText, manifestDurable, crash, hm], ?_⟩
    simp only [manifestText, manifestDurable, hm, Option.map_some, Option.getD_some, File.data]
    exact (List.prefix_append_right_inj _).mpr (List.take_prefix _ _)

theorem AtRest.manifestDurable {d : Dir} (h : d.AtRest) : d.manifestDurable = d.manifestText := by
  rcases hm : d.manifest with _ | f
  · simp [Dir.manifestDurable, manifestText, hm]
  · simp [Dir.manifestDurable, manifestText, hm, File.data, h.manifest f hm]

theorem AtRest.crash_get? {d : Dir} (h : d.AtRest) (cut : Seg → ℕ) (manifestCut : ℕ) (seg : Seg) :
    (d.crash cut manifestCut).parts.get? seg = d.parts.get? seg := by
  rw [Dir.crash_get?]
  rcases hf : d.parts.get? seg with _ | f
  · rfl
  · have hp := h.parts seg f hf
    rcases f with ⟨durable, pending⟩
    simp only at hp
    subst hp
    simp [File.crash]

end Dir

def Effect.apply : Effect → Dir → Dir
  | .createPart seg, d => { d with parts := d.parts.insert seg .empty }
  | .writePart seg bytes, d => { d with parts := d.parts.adjust seg (·.write bytes) }
  | .syncPart seg, d => { d with parts := d.parts.adjust seg File.sync }
  | .setLen seg n, d => { d with parts := d.parts.adjust seg (·.setLen n) }
  | .removePart seg, d => { d with parts := d.parts.erase seg }
  | .appendManifest bytes, d => { d with manifest := some ((d.manifest.getD .empty).write bytes) }
  | .syncManifest, d => { d with manifest := d.manifest.map File.sync }
  | .syncDir, d => d

/-- The directory after effects. -/
def applyEffects (es : List Effect) (d : Dir) : Dir := applyAll Effect.apply es d

/-- The part an effect is about. -/
def Effect.part? : Effect → Option Seg
  | .createPart seg | .writePart seg _ | .syncPart seg | .setLen seg _ | .removePart seg => some seg
  | .appendManifest _ | .syncManifest | .syncDir => none

/-- An effect leaves the other parts alone. -/
theorem get?_apply_of_ne {e : Effect} {seg : Seg} (h : e.part? ≠ some seg) (d : Dir) :
    (e.apply d).parts.get? seg = d.parts.get? seg := by
  cases e with
  | createPart seg' => 
    have : seg ≠ seg' := fun h' => h (by rw [h']; rfl)
    rw [Effect.apply, SortedMap.get?_insert, if_neg this]
  | removePart seg' =>
    have : seg ≠ seg' := fun h' => h (by rw [h']; rfl)
    rw [Effect.apply, SortedMap.get?_erase, if_neg this]
  | writePart seg' _ | syncPart seg' | setLen seg' _ =>
    have : seg ≠ seg' := fun h' => h (by rw [h']; rfl)
    rw [Effect.apply, SortedMap.get?_adjust, if_neg this]
  | appendManifest _ | syncManifest | syncDir => rfl

theorem partData_apply_of_ne {e : Effect} {seg : Seg} (h : e.part? ≠ some seg) (d : Dir) :
    (e.apply d).partData seg = d.partData seg := by
  rw [Dir.partData, get?_apply_of_ne h, Dir.partData]

theorem get?_applyEffects_of_ne {seg : Seg} : ∀ {es : List Effect},
    (∀ e ∈ es, e.part? ≠ some seg) → ∀ d : Dir,
      (applyEffects es d).parts.get? seg = d.parts.get? seg
  | [], _, d => rfl
  | e :: es, h, d => by
    rw [applyEffects, applyAll_cons, ← applyEffects,
      get?_applyEffects_of_ne (fun e' h' => h e' (List.mem_cons_of_mem _ h')),
      get?_apply_of_ne (h e List.mem_cons_self)]

theorem partData_applyEffects_of_ne {seg : Seg} {es : List Effect}
    (h : ∀ e ∈ es, e.part? ≠ some seg) (d : Dir) :
    (applyEffects es d).partData seg = d.partData seg := by
  rw [Dir.partData, get?_applyEffects_of_ne h, Dir.partData]

@[simp] theorem applyEffects_nil (d : Dir) : applyEffects [] d = d := rfl

@[simp] theorem applyEffects_cons (e : Effect) (es : List Effect) (d : Dir) :
    applyEffects (e :: es) d = applyEffects es (e.apply d) := rfl

theorem applyEffects_append (es es' : List Effect) (d : Dir) :
    applyEffects (es ++ es') d = applyEffects es' (applyEffects es d) := applyAll_append es es' d

@[simp] theorem partData_setLen (d : Dir) (seg : Seg) (n : ℕ) :
    ((Effect.setLen seg n).apply d).partData seg = (d.partData seg).map (·.take n) := by
  simp only [Dir.partData, Effect.apply, SortedMap.get?_adjust, if_true, Option.map_map]
  rcases d.parts.get? seg with _ | f
  · rfl
  · simp

@[simp] theorem partData_removePart (d : Dir) (seg : Seg) :
    ((Effect.removePart seg).apply d).partData seg = none := by
  simp [Dir.partData, Effect.apply, SortedMap.get?_erase]

@[simp] theorem partData_createPart (d : Dir) (seg : Seg) :
    ((Effect.createPart seg).apply d).partData seg = some [] := by
  simp [Dir.partData, Effect.apply, SortedMap.get?_insert]

@[simp] theorem partData_writePart (d : Dir) (seg : Seg) (bytes : Bytes) :
    ((Effect.writePart seg bytes).apply d).partData seg = (d.partData seg).map (· ++ bytes) := by
  simp only [Dir.partData, Effect.apply, SortedMap.get?_adjust, if_true, Option.map_map]
  rcases d.parts.get? seg with _ | f
  · rfl
  · simp

@[simp] theorem partData_syncPart (d : Dir) (seg seg' : Seg) :
    ((Effect.syncPart seg').apply d).partData seg = d.partData seg := by
  simp only [Dir.partData, Effect.apply, SortedMap.get?_adjust]
  split
  · rcases d.parts.get? seg with _ | f
    · rfl
    · simp
  · rfl

theorem mem_listSegments (d : Dir) (seg : Seg) : seg ∈ d.listSegments ↔ (d.partData seg).isSome := by
  rw [Dir.listSegments, SortedMap.mem_keys, Dir.partData, Option.isSome_map]

theorem partData_eq_none (d : Dir) (seg : Seg) : d.partData seg = none ↔ seg ∉ d.listSegments := by
  rw [mem_listSegments, Option.not_isSome_iff_eq_none]

/-- Only a creation makes a part. -/
theorem partData_apply_none {e : Effect} {seg : Seg} (h : e ≠ .createPart seg) {d : Dir}
    (hd : d.partData seg = none) : (e.apply d).partData seg = none := by
  by_cases hp : e.part? = some seg
  · cases e <;> simp only [Effect.part?, Option.some.injEq, reduceCtorEq] at hp <;> subst hp
    · exact absurd rfl h
    · rw [partData_writePart, hd]; rfl
    · rw [partData_syncPart, hd]
    · rw [partData_setLen, hd]; rfl
    · exact partData_removePart d _
  · rw [partData_apply_of_ne hp, hd]

theorem partData_applyEffects_none {seg : Seg} : ∀ {es : List Effect}, Effect.createPart seg ∉ es →
    ∀ {d : Dir}, d.partData seg = none → (applyEffects es d).partData seg = none
  | [], _, _, hd => hd
  | e :: es, h, d, hd => by
    rw [applyEffects_cons]
    refine partData_applyEffects_none (fun h' => h (List.mem_cons_of_mem _ h')) ?_
    exact partData_apply_none (fun h' => h (h' ▸ List.mem_cons_self)) hd

/-- What an effect appends to the manifest. -/
def Effect.appended : Effect → Bytes
  | .appendManifest bytes => bytes
  | _ => []

theorem manifestText_apply (e : Effect) (d : Dir) :
    (e.apply d).manifestText = d.manifestText ++ e.appended := by
  cases e with
  | appendManifest bytes =>
    rcases hm : d.manifest with _ | f <;> simp [Dir.manifestText, Effect.apply, Effect.appended, hm]
  | syncManifest =>
    rcases hm : d.manifest with _ | f <;> simp [Dir.manifestText, Effect.apply, Effect.appended, hm]
  | createPart _ | writePart _ _ | syncPart _ | setLen _ _ | removePart _ | syncDir =>
    simp [Dir.manifestText, Effect.apply, Effect.appended]

/-- The manifest only grows. -/
theorem manifestText_applyEffects : ∀ (es : List Effect) (d : Dir),
    (applyEffects es d).manifestText = d.manifestText ++ es.flatMap Effect.appended
  | [], d => by simp
  | e :: es, d => by
    rw [applyEffects_cons, manifestText_applyEffects es, manifestText_apply, List.flatMap_cons,
      List.append_assoc]

theorem manifestDurable_apply {e : Effect} (h : e ≠ .syncManifest) (d : Dir) :
    (e.apply d).manifestDurable = d.manifestDurable := by
  cases e with
  | appendManifest bytes =>
    rcases hm : d.manifest with _ | f <;> simp [Dir.manifestDurable, Effect.apply, hm, File.empty, File.write]
  | syncManifest => exact absurd rfl h
  | createPart _ | writePart _ _ | syncPart _ | setLen _ _ | removePart _ | syncDir => rfl

@[simp] theorem manifestDurable_syncManifest (d : Dir) :
    (Effect.syncManifest.apply d).manifestDurable = d.manifestText := by
  rcases hm : d.manifest with _ | f <;>
    simp [Dir.manifestDurable, Dir.manifestText, Effect.apply, hm, File.sync, File.data]

/-- Why a journal is not opened, read or written. -/
inductive JournalError where
  /-- A manifest line is malformed. -/
  | malformedManifest
  /-- An incarnation's first part does not start at sequence number 1. -/
  | prefixNotAtOne (seg : Seg)
  | notFound (seg : Seg)
  | alreadyExists (seg : Seg)
  /-- No part of the incarnation is retained. -/
  | noSegment (incarnation : ℕ)
  /-- The incarnation's parts are not numbered from 1 on. -/
  | hole (incarnation : ℕ)
  /-- The part a stream is to start in is not retained. -/
  | partNotRetained
  | corrupt (stop : ScanStop)
  /-- The operating system reports a failure. -/
  | io
  deriving DecidableEq, Repr

/-- The journal's programs. -/
abbrev JournalM (α : Type) := Prog Effect.apply JournalError α

/-- A program after another one sees what that one's effects left. -/
theorem bind_run {α β : Type} {m : JournalM α} {d : Dir} {es : List Effect} {a : α}
    (h : m.run d = (es, .ok a)) (f : α → JournalM β) :
    (m >>= f).run d = (es ++ ((f a).run (applyEffects es d)).1, ((f a).run (applyEffects es d)).2) :=
  Prog.bind_of_ok h f

/-- `part_first_seq`: the sequence number of the first record, from its header;
`none` for an empty part, an error for a torn or foreign first header. -/
def partFirstSeq (file : Bytes) : Except Unit (Option ℕ) :=
  if file = [] then .ok none
  else if file.length < headerLen then .error ()
  else if file.take 4 ≠ recordMagic then .error ()
  else .ok (some (leNat (field file 12 8)))

end Journal
end OpenRelay
