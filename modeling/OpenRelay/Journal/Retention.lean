/-
# Retention

`retain_before` deletes incarnations below a horizon, never past the newest
checkpoint and never the latest incarnation (`session/journal/checkpoint.rs`).
Each one is tombstoned in the manifest before its parts are removed, the newest
part first.

Key theorem: `retainBefore_effects`.
-/
import OpenRelay.Journal.Layout

namespace OpenRelay
namespace Journal

open Effects Effects.Prog LittleEndian

/-- Drop repeated neighbours. -/
def dedup : List ℕ → List ℕ
  | [] => []
  | [a] => [a]
  | a :: b :: l => if a = b then dedup (b :: l) else a :: dedup (b :: l)

theorem mem_dedup : ∀ {l : List ℕ} {a : ℕ}, a ∈ dedup l → a ∈ l
  | [], _, h => h
  | [_], _, h => h
  | b :: c :: l, a, h => by
    unfold dedup at h
    split at h
    · exact List.mem_cons_of_mem _ (mem_dedup h)
    · rcases List.mem_cons.mp h with rfl | h
      · exact List.mem_cons_self
      · exact List.mem_cons_of_mem _ (mem_dedup h)

theorem dedup_ne_nil : ∀ {l : List ℕ}, l ≠ [] → dedup l ≠ []
  | [], h => absurd rfl h
  | [_], _ => List.cons_ne_nil _ _
  | a :: b :: l, _ => by
    unfold dedup
    split
    · exact dedup_ne_nil (List.cons_ne_nil _ _)
    · exact List.cons_ne_nil _ _

theorem getLast?_dedup : ∀ l : List ℕ, (dedup l).getLast? = l.getLast?
  | [] => rfl
  | [_] => rfl
  | a :: b :: l => by
    have ih := getLast?_dedup (b :: l)
    unfold dedup
    split
    · rw [ih, List.getLast?_cons_cons]
    · obtain ⟨c, l', hl⟩ := List.exists_cons_of_ne_nil (dedup_ne_nil (List.cons_ne_nil b l))
      rw [hl, List.getLast?_cons_cons, ← hl, ih, List.getLast?_cons_cons]

/-- `list_incarnations`: ascending. -/
def listIncarnations (d : Dir) : List ℕ := dedup (d.listSegments.map Seg.incarnation)

/-! ### The checkpoint gate -/

/-- A checkpoint's header stands among the record headers of a part; each record
read skips at least its header. -/
def scanForCheckpoint : ℕ → Bytes → Bool
  | 0, _ => false
  | turns + 1, rest =>
    if rest.length < headerLen then false
    else if rest.take 4 ≠ recordMagic then false
    else if leNat (field rest 6 2) = RecordKind.checkpointRef.toU16 then true
    else scanForCheckpoint turns (rest.drop (headerLen + leNat (field rest 28 4)))

def incarnationHasCheckpoint (d : Dir) (incarnation : ℕ) : Bool :=
  (d.incarnationSegs incarnation).any fun seg =>
    let file := (d.partData seg).getD []
    scanForCheckpoint file.length file

def latestCheckpointIncarnation (d : Dir) : Option ℕ :=
  (listIncarnations d).reverse.find? (incarnationHasCheckpoint d)

/-! ### The sweep -/

/-- Tombstone an incarnation, then remove its parts, the newest first. -/
def retireIncarnation (incarnation : ℕ) : JournalM Unit := do
  appendManifestLine (.retired ⟨incarnation⟩)
  let d ← get
  removeParts (d.incarnationSegs incarnation).reverse

def retireIncarnations : List ℕ → JournalM Unit
  | [] => pure ()
  | incarnation :: more => do
    retireIncarnation incarnation
    retireIncarnations more

/-- The incarnations to delete. -/
def toDelete (d : Dir) (minIncarnation : ℕ) (alreadyRetired : List ℕ) : List ℕ :=
  (listIncarnations d).filter fun incarnation =>
    !(decide (minIncarnation ≤ incarnation) || decide (some incarnation = (listIncarnations d).getLast?) ||
      alreadyRetired.contains incarnation)

/-- `retain_before`: what is older than both the given incarnation and the newest checkpoint is retired. -/
def retainBefore (R : LineReader) (minIncarnation : ℕ) : JournalM (List ℕ) := do
  let d ← get
  match latestCheckpointIncarnation d with
  | none => pure []
  | some gate => do
    let alreadyRetired ← retiredIncarnations R
    let deleted := toDelete d (min minIncarnation gate) alreadyRetired
    retireIncarnations deleted
    if deleted = [] then pure () else syncDir
    pure deleted

/-! ### Its effects -/

/-- What retention does while incarnation `N` is the latest. -/
def SweepEffect (N : ℕ) : Effect → Prop
  | .appendManifest bytes => ∃ incarnation < N, bytes = (ManifestLine.retired ⟨incarnation⟩).render
  | .removePart seg => seg.incarnation < N
  | .syncManifest | .syncDir => True
  | .createPart _ | .writePart _ _ | .syncPart _ | .setLen _ _ => False

section Effects

variable {N : ℕ}

theorem only_removeParts : ∀ {segs : List Seg}, (∀ seg ∈ segs, seg.incarnation < N) →
    Only (SweepEffect N) (removeParts segs)
  | [], _ => only_pure _
  | seg :: segs, h => by
    have hseg : SweepEffect N (.removePart seg) := h seg List.mem_cons_self
    exact only_bind (only_act hseg) fun _ =>
      only_removeParts fun seg' h' => h seg' (List.mem_cons_of_mem _ h')

theorem only_retireIncarnation {incarnation : ℕ} (h : incarnation < N) :
    Only (SweepEffect N) (retireIncarnation incarnation) := by
  have hline : SweepEffect N (.appendManifest (ManifestLine.retired ⟨incarnation⟩).render) :=
    ⟨incarnation, h, rfl⟩
  have hsync : SweepEffect N .syncManifest := trivial
  refine only_bind (only_bind (only_act hline) fun _ => only_act hsync) fun _ => ?_
  refine only_bind only_get fun d => only_removeParts fun seg hseg => ?_
  rw [List.mem_reverse, mem_incarnationSegs] at hseg
  rw [hseg.2]
  exact h

theorem only_retireIncarnations : ∀ {incarnations : List ℕ}, (∀ i ∈ incarnations, i < N) →
    Only (SweepEffect N) (retireIncarnations incarnations)
  | [], _ => only_pure _
  | i :: _, h => only_bind (only_retireIncarnation (h i List.mem_cons_self)) fun _ =>
      only_retireIncarnations fun i' h' => h i' (List.mem_cons_of_mem _ h')

/-- Only incarnations below the latest are deleted. -/
theorem lt_of_mem_toDelete {d : Dir} {minIncarnation i : ℕ} {alreadyRetired : List ℕ}
    (hle : ∀ seg ∈ d.listSegments, seg.incarnation ≤ N)
    (hlast : d.listSegments.getLast?.map Seg.incarnation = some N)
    (h : i ∈ toDelete d minIncarnation alreadyRetired) : i < N := by
  obtain ⟨hmem, hkeep⟩ := List.mem_filter.mp h
  obtain ⟨seg, hseg, rfl⟩ := List.mem_map.mp (mem_dedup hmem)
  rw [listIncarnations, getLast?_dedup, List.getLast?_map, hlast] at hkeep
  refine lt_of_le_of_ne (hle seg hseg) fun heq => ?_
  simp [heq] at hkeep

/-- **The effects of a sweep.** While incarnation `N` is the latest, retention
tombstones and removes only incarnations below it. -/
theorem retainBefore_effects {R : LineReader} {d : Dir} {minIncarnation : ℕ}
    (hle : ∀ seg ∈ d.listSegments, seg.incarnation ≤ N)
    (hlast : d.listSegments.getLast?.map Seg.incarnation = some N) :
    ∀ e ∈ ((retainBefore R minIncarnation).run d).1, SweepEffect N e := by
  rw [retainBefore, bind_of_read (get_run d)]
  rcases latestCheckpointIncarnation d with _ | gate
  · nofun
  · have hread : Only (SweepEffect N) (retiredIncarnations R) := by
      refine only_bind (only_bind only_get fun d' => ?_) fun _ => only_pure _
      split
      · exact only_pure _
      · exact only_fail _
    have hsync : SweepEffect N .syncDir := trivial
    refine only_bind hread (fun retired => ?_) d
    refine only_bind (only_retireIncarnations fun i hi => lt_of_mem_toDelete hle hlast hi) fun _ => ?_
    by_cases hnil : toDelete d (min minIncarnation gate) retired = []
    · simp only [hnil, if_true]
      exact only_pure _
    · simp only [hnil, if_false]
      exact only_bind (only_act hsync) fun _ => only_pure _

end Effects

end Journal
end OpenRelay
