/-
# The byte budget

`min_incarnation_for_byte_budget` says from which incarnation on a journal fits a
cap (`session/journal/checkpoint.rs`). It starts at the gate, which stays whatever
it takes, and walks down over the older incarnations, adding up what the manifest
says of them.

The walk does not stop at an incarnation that is too much: it leaves it out and
goes on, and what is older may still fit beside the rest. Then the horizon lies
below an incarnation that was not counted, and what is kept is more than the cap
(`oversized_middle`). The horizon is the right one exactly when below the
incarnation at which the walk should stop none fits (`horizon_iff`). The sums are
those of a release build, which wraps.

Key theorem: `budgetWalk_spec`.
-/
import Mathlib.Data.Nat.ModEq
import OpenRelay.Journal.Gate
import OpenRelay.Journal.Truthful

namespace OpenRelay
namespace Journal

/-- An addition of a release build. -/
def wrappingAdd (a b : ℕ) : ℕ := (a + b) % 2 ^ 64

def u64Max : ℕ := 2 ^ 64 - 1

/-- The manifested bytes of each incarnation. -/
def bytesPerInc (entries : List SegmentManifestEntry) : SortedMap ℕ ℕ :=
  entries.foldl (fun m e => m.insert e.incarnation (wrappingAdd ((m.get? e.incarnation).getD 0) e.bytes)) .empty

/-- The incarnations below this one, the newest first: each is kept if it fits beside
what is kept already. -/
def budgetWalk (byteCap : ℕ) (bytes : ℕ → ℕ) : ℕ → ℕ → ℕ → ℕ
  | 0, h, _ => h
  | inc + 1, h, kept =>
    if byteCap < wrappingAdd kept (bytes (inc + 1)) then budgetWalk byteCap bytes inc h kept
    else budgetWalk byteCap bytes inc (inc + 1) (wrappingAdd kept (bytes (inc + 1)))

/-- The incarnation of the newest checkpoint, or the latest one. -/
def budgetGate (d : Dir) (latest : ℕ) : ℕ := (latestCheckpointIncarnation d).getD latest

/-- `min_incarnation_for_byte_budget`; none if the manifest cannot be read. -/
def minIncarnationForByteBudget (R : LineReader) (d : Dir) (byteCap : ℕ) : Option ℕ :=
  if byteCap = 0 then some u64Max
  else match (listIncarnations d).getLast? with
    | none => some u64Max
    | some latest =>
      let gate := budgetGate d latest
      (readManifestText R d.manifestText).map fun lines =>
        let bytes := bytesPerInc (sealedEntries lines)
        let kept := (bytes.entries.filter fun e => decide (gate ≤ e.1 ∧ e.1 ≤ latest)).foldl
          (fun sum e => wrappingAdd sum e.2) 0
        budgetWalk byteCap (fun inc => (bytes.get? inc).getD 0) (gate - 1) gate kept

/-! ### What the manifest says -/

/-- The bytes that the entries of these incarnations add up to. -/
def manifestedBytes (entries : List SegmentManifestEntry) (p : ℕ → Bool) : ℕ :=
  ((entries.filter fun e => p e.incarnation).map SegmentManifestEntry.bytes).sum

/-- The manifested bytes of the incarnations from this one to the latest. -/
def manifestedFrom (entries : List SegmentManifestEntry) (latest g : ℕ) : ℕ :=
  manifestedBytes entries fun inc => decide (g ≤ inc ∧ inc ≤ latest)

/-- What the manifest says an incarnation holds. -/
def manifestedOf (entries : List SegmentManifestEntry) (inc : ℕ) : ℕ := manifestedBytes entries fun i => decide (i = inc)

/-- **The promise of the budget.** The horizon is not above the gate; it is the gate or
everything from it on fits; nothing older does; and retention keeps what is above it. -/
structure Horizon (R : LineReader) (d : Dir) (entries : List SegmentManifestEntry) (byteCap latest h : ℕ) : Prop where
  le_gate : h ≤ budgetGate d latest
  fits : h = budgetGate d latest ∨ manifestedFrom entries latest h ≤ byteCap
  least : ∀ g, 1 ≤ g → g < h → byteCap < manifestedFrom entries latest g
  kept : ∀ i, h ≤ i → ¬ Deleted ((retainBefore R h).run d).1 i

/-- Where the walk should stop, no older incarnation fits beside what is kept. -/
def Closed (entries : List SegmentManifestEntry) (byteCap latest gate : ℕ) : Prop :=
  ∀ g, 1 < g → g ≤ gate → g = gate ∨ manifestedFrom entries latest g ≤ byteCap →
    byteCap < manifestedFrom entries latest (g - 1) →
    ∀ inc, 1 ≤ inc → inc < g → byteCap < wrappingAdd (manifestedFrom entries latest g) (manifestedOf entries inc)

/-! ### The sums -/

section Sums

theorem manifestedBytes_append (entries : List SegmentManifestEntry) (e : SegmentManifestEntry) (p : ℕ → Bool) :
    manifestedBytes (entries ++ [e]) p = manifestedBytes entries p + if p e.incarnation then e.bytes else 0 := by
  unfold manifestedBytes
  rw [List.filter_append, List.map_append, List.sum_append]
  by_cases hp : p e.incarnation = true
  · simp [hp]
  · simp [hp]

theorem manifestedFrom_succ (entries : List SegmentManifestEntry) {latest g : ℕ} (h : g ≤ latest) :
    manifestedFrom entries latest g = manifestedFrom entries latest (g + 1) + manifestedOf entries g := by
  unfold manifestedFrom manifestedOf
  induction entries using List.reverseRecOn with
  | nil => rfl
  | append_singleton entries e ih =>
    rw [manifestedBytes_append, manifestedBytes_append, manifestedBytes_append, ih]
    simp only [decide_eq_true_eq]
    split_ifs <;> omega

theorem manifestedFrom_anti (entries : List SegmentManifestEntry) {latest g g' : ℕ} (h : g ≤ g') :
    manifestedFrom entries latest g' ≤ manifestedFrom entries latest g := by
  unfold manifestedFrom
  induction entries using List.reverseRecOn with
  | nil => rfl
  | append_singleton entries e ih =>
    rw [manifestedBytes_append, manifestedBytes_append]
    simp only [decide_eq_true_eq]
    split_ifs <;> omega

/-- What the values of these keys add up to. -/
def sumOver (p : ℕ → Bool) (es : List (ℕ × ℕ)) : ℕ := ((es.filter fun e => p e.1).map Prod.snd).sum

theorem sumOver_cons (p : ℕ → Bool) (e : ℕ × ℕ) (es : List (ℕ × ℕ)) :
    sumOver p (e :: es) = (if p e.1 then e.2 else 0) + sumOver p es := by
  unfold sumOver
  by_cases hp : p e.1 = true
  · simp [hp]
  · simp [hp]

/-- The new value of a key takes the place of the old one. -/
theorem sumOver_insertEntry (p : ℕ → Bool) (k v : ℕ) : ∀ {es : List (ℕ × ℕ)}, es.Pairwise (fun a b => a.1 < b.1) →
    sumOver p (SortedMap.insertEntry k v es) + (if p k then ((es.find? (·.1 = k)).map Prod.snd).getD 0 else 0) =
      sumOver p es + if p k then v else 0
  | [], _ => by
    rw [SortedMap.insertEntry, sumOver_cons]
    simp only [List.find?_nil, Option.map_none, Option.getD_none, ite_self]
    omega
  | e :: es, hes => by
    have hrest := List.pairwise_cons.mp hes
    have hnone : k < e.1 → (es.find? (·.1 = k)) = none := by
      intro hk
      refine List.find?_eq_none.mpr fun e' he' heq => ?_
      have := hrest.1 e' he'
      have := of_decide_eq_true heq
      omega
    unfold SortedMap.insertEntry
    by_cases hlt : k < e.1
    · rw [if_pos hlt, sumOver_cons, List.find?_cons_of_neg (by simpa using (ne_of_gt hlt)), hnone hlt]
      simp only [Option.map_none, Option.getD_none, ite_self]
      omega
    · rw [if_neg hlt]
      by_cases heq : k = e.1
      · rw [if_pos heq, sumOver_cons, sumOver_cons, List.find?_cons_of_pos (by simpa using heq.symm), ← heq]
        simp only [Option.map_some, Option.getD_some]
        omega
      · rw [if_neg heq, sumOver_cons, sumOver_cons, List.find?_cons_of_neg (by simpa using Ne.symm heq)]
        have ih := sumOver_insertEntry p k v hrest.2
        omega

theorem bytesPerInc_append (entries : List SegmentManifestEntry) (e : SegmentManifestEntry) :
    bytesPerInc (entries ++ [e]) = (bytesPerInc entries).insert e.incarnation
      (wrappingAdd (((bytesPerInc entries).get? e.incarnation).getD 0) e.bytes) := by
  unfold bytesPerInc
  rw [List.foldl_append]
  rfl

theorem sumOver_bytesPerInc (entries : List SegmentManifestEntry) (p : ℕ → Bool) :
    sumOver p (bytesPerInc entries).entries ≡ manifestedBytes entries p [MOD 2 ^ 64] := by
  induction entries using List.reverseRecOn with
  | nil => rfl
  | append_singleton entries e ih =>
    rw [manifestedBytes_append, bytesPerInc_append]
    have hinsert := sumOver_insertEntry p e.incarnation
      (wrappingAdd (((bytesPerInc entries).get? e.incarnation).getD 0) e.bytes) (bytesPerInc entries).sorted
    by_cases hp : p e.incarnation = true
    · rw [if_pos hp, if_pos hp] at hinsert
      rw [if_pos hp]
      refine Nat.ModEq.add_right_cancel' (((bytesPerInc entries).get? e.incarnation).getD 0) ?_
      calc sumOver p (SortedMap.insertEntry e.incarnation _ (bytesPerInc entries).entries) + _
          = sumOver p (bytesPerInc entries).entries + wrappingAdd _ e.bytes := hinsert
        _ ≡ manifestedBytes entries p + (((bytesPerInc entries).get? e.incarnation).getD 0 + e.bytes) [MOD 2 ^ 64] :=
          Nat.ModEq.add ih (Nat.mod_modEq _ _)
        _ = manifestedBytes entries p + e.bytes + ((bytesPerInc entries).get? e.incarnation).getD 0 := by omega
    · rw [if_neg hp, if_neg hp] at hinsert
      rw [if_neg hp]
      calc sumOver p (SortedMap.insertEntry e.incarnation _ (bytesPerInc entries).entries)
          = sumOver p (bytesPerInc entries).entries := hinsert
        _ ≡ manifestedBytes entries p [MOD 2 ^ 64] := ih

theorem get?_bytesPerInc (entries : List SegmentManifestEntry) (inc : ℕ) :
    ((bytesPerInc entries).get? inc).getD 0 = manifestedOf entries inc % 2 ^ 64 := by
  unfold manifestedOf
  induction entries using List.reverseRecOn with
  | nil => rfl
  | append_singleton entries e ih =>
    rw [manifestedBytes_append, bytesPerInc_append, SortedMap.get?_insert]
    by_cases hinc : inc = e.incarnation
    · subst hinc
      rw [if_pos rfl, Option.getD_some, ih, if_pos (decide_eq_true rfl), wrappingAdd, Nat.mod_add_mod]
    · rw [if_neg hinc, ih, if_neg (by simpa using Ne.symm hinc), Nat.add_zero]

theorem foldl_wrappingAdd (es : List (ℕ × ℕ)) {sum : ℕ} (h : sum < 2 ^ 64) :
    es.foldl (fun sum e => wrappingAdd sum e.2) sum = (sum + (es.map Prod.snd).sum) % 2 ^ 64 := by
  induction es generalizing sum with
  | nil => exact (Nat.mod_eq_of_lt h).symm
  | cons e es ih =>
    have hlt : wrappingAdd sum e.2 < 2 ^ 64 := Nat.mod_lt _ (Nat.two_pow_pos 64)
    rw [List.foldl_cons, ih hlt, List.map_cons, List.sum_cons, wrappingAdd,
      Nat.mod_add_mod, Nat.add_assoc]

/-- A wrapping sum sees its terms modulo 2^64. -/
theorem wrappingAdd_congr {a b a' b' : ℕ} (ha : a ≡ a' [MOD 2 ^ 64]) (hb : b ≡ b' [MOD 2 ^ 64]) :
    wrappingAdd a b = wrappingAdd a' b' := Nat.ModEq.add ha hb

end Sums

/-! ### The walk -/

section Walk

variable {byteCap : ℕ} {bytes : ℕ → ℕ}

theorem budgetWalk_le : ∀ {n h kept : ℕ}, n < h → budgetWalk byteCap bytes n h kept ≤ h
  | 0, _, _, _ => le_rfl
  | n + 1, h, kept, hlt => by
    unfold budgetWalk
    split
    · exact budgetWalk_le (by omega)
    · exact (budgetWalk_le (Nat.lt_succ_self n)).trans (by omega)

/-- Nothing fits any more. -/
theorem budgetWalk_rest : ∀ {n h kept : ℕ}, (∀ inc, 1 ≤ inc → inc ≤ n → byteCap < wrappingAdd kept (bytes inc)) →
    budgetWalk byteCap bytes n h kept = h
  | 0, _, _, _ => rfl
  | n + 1, h, kept, hover => by
    unfold budgetWalk
    rw [if_pos (hover (n + 1) (by omega) le_rfl)]
    exact budgetWalk_rest fun inc hpos hle => hover inc hpos (by omega)

/-- Something does, and the horizon moves down to it at least. -/
theorem budgetWalk_moves : ∀ {n h kept inc : ℕ}, 1 ≤ inc → inc ≤ n → wrappingAdd kept (bytes inc) ≤ byteCap →
    budgetWalk byteCap bytes n h kept ≤ n
  | 0, _, _, inc, hpos, hle, _ => by omega
  | n + 1, h, kept, inc, hpos, hle, hfits => by
    unfold budgetWalk
    split
    next hover =>
      have hne : inc ≠ n + 1 := by
        rintro rfl
        omega
      exact (budgetWalk_moves hpos (by omega) hfits).trans (Nat.le_succ n)
    next => exact budgetWalk_le (Nat.lt_succ_self n)

/-- The promise of a horizon, as far as the sums go. -/
def Fitting (entries : List SegmentManifestEntry) (byteCap latest gate h : ℕ) : Prop :=
  (h = gate ∨ manifestedFrom entries latest h ≤ byteCap) ∧
    ∀ g, 1 ≤ g → g < h → byteCap < manifestedFrom entries latest g

/-- **The walk.** It comes out where it should exactly when nothing older fits there. -/
theorem budgetWalk_spec {entries : List SegmentManifestEntry} {latest gate : ℕ} (hcap : byteCap < 2 ^ 64)
    (hbytes : ∀ inc, bytes inc = manifestedOf entries inc % 2 ^ 64) (hgate : gate ≤ latest) :
    ∀ (n : ℕ), n + 1 ≤ gate → n + 1 = gate ∨ manifestedFrom entries latest (n + 1) ≤ byteCap →
      (Fitting entries byteCap latest gate
          (budgetWalk byteCap bytes n (n + 1) (manifestedFrom entries latest (n + 1) % 2 ^ 64)) ↔
        ∀ g, 1 < g → g ≤ n + 1 → g = gate ∨ manifestedFrom entries latest g ≤ byteCap →
          byteCap < manifestedFrom entries latest (g - 1) →
          ∀ inc, 1 ≤ inc → inc < g → byteCap < wrappingAdd (manifestedFrom entries latest g) (manifestedOf entries inc))
  | 0, _, hfits => iff_of_true ⟨hfits, fun g hpos hlt => absurd hpos (Nat.not_le.mpr hlt)⟩ fun g hgt hle => by omega
  | n + 1, hle, hfits => by
    have hadd : ∀ inc, wrappingAdd (manifestedFrom entries latest (n + 2) % 2 ^ 64) (bytes inc) =
        wrappingAdd (manifestedFrom entries latest (n + 2)) (manifestedOf entries inc) := fun inc => by
      rw [hbytes]
      exact wrappingAdd_congr (Nat.mod_modEq _ _) (Nat.mod_modEq _ _)
    have hsum : wrappingAdd (manifestedFrom entries latest (n + 2)) (manifestedOf entries (n + 1)) =
        manifestedFrom entries latest (n + 1) % 2 ^ 64 := by
      rw [manifestedFrom_succ entries (g := n + 1) (by omega)]
      rfl
    by_cases hnext : manifestedFrom entries latest (n + 1) ≤ byteCap
    · -- the next one fits too, and its sum does not wrap
      have hstep : budgetWalk byteCap bytes (n + 1) (n + 2) (manifestedFrom entries latest (n + 2) % 2 ^ 64) =
          budgetWalk byteCap bytes n (n + 1) (manifestedFrom entries latest (n + 1) % 2 ^ 64) := by
        rw [budgetWalk, hadd, hsum, if_neg]
        rw [Nat.mod_eq_of_lt (by omega)]
        omega
      rw [hstep, budgetWalk_spec hcap hbytes hgate n (by omega) (.inr hnext)]
      refine ⟨fun h g hgt hle' hg hover => ?_, fun h g hgt hle' => h g hgt (by omega)⟩
      by_cases htop : g = n + 2
      · subst htop
        rw [show n + 2 - 1 = n + 1 from rfl] at hover
        omega
      · exact h g hgt (by omega) hg hover
    · have hbelow : ∀ g, g ≤ n + 1 → byteCap < manifestedFrom entries latest g := fun g hg => by
        have := @manifestedFrom_anti entries latest _ _ hg
        omega
      constructor
      · intro h g hgt hle' hg hover inc hpos hlt
        have htop : g = n + 2 := by
          by_contra hne
          rcases hg with rfl | hg
          · omega
          · exact absurd hg (Nat.not_le.mpr (hbelow g (by omega)))
        subst htop
        by_contra hin
        have hmoved : budgetWalk byteCap bytes (n + 1) (n + 2) (manifestedFrom entries latest (n + 2) % 2 ^ 64) ≤ n + 1 :=
          budgetWalk_moves hpos (Nat.lt_succ_iff.mp hlt) (by rw [hadd]; exact Nat.not_lt.mp hin)
        rcases h.1 with heq | hin'
        · have := heq.symm.trans_le hmoved
          omega
        · exact absurd hin' (Nat.not_le.mpr (hbelow _ hmoved))
      · intro h
        have hstays : budgetWalk byteCap bytes (n + 1) (n + 2) (manifestedFrom entries latest (n + 2) % 2 ^ 64) = n + 2 := by
          refine budgetWalk_rest fun inc hpos hle' => ?_
          rw [hadd]
          exact h (n + 2) (by omega) le_rfl hfits (hbelow (n + 1) le_rfl) inc hpos (by omega)
        rw [hstays]
        exact ⟨hfits, fun g hpos hlt => hbelow g (by omega)⟩

end Walk

/-! ### The horizon -/

theorem budgetGate_le {d : Dir} {latest : ℕ} (hlatest : (listIncarnations d).getLast? = some latest) :
    budgetGate d latest ≤ latest := by
  unfold budgetGate
  rcases hgate : latestCheckpointIncarnation d with _ | gate
  · exact le_rfl
  · exact le_latest hlatest (List.mem_reverse.mp (List.mem_of_find?_eq_some hgate))

/-- **When the horizon is right.** For any journal that is not empty, any manifest and
any cap: the function returns a horizon that keeps its promise if and only if, where the
walk should stop, no older incarnation fits beside what is kept. -/
theorem horizon_iff (R : LineReader) (d : Dir) {lines : List ManifestLine} {byteCap latest : ℕ} (hcap : 0 < byteCap)
    (hfits : byteCap < 2 ^ 64) (hlatest : (listIncarnations d).getLast? = some latest)
    (hread : readManifestText R d.manifestText = some lines) :
    (∃ h, minIncarnationForByteBudget R d byteCap = some h ∧ Horizon R d (sealedEntries lines) byteCap latest h) ↔
      Closed (sealedEntries lines) byteCap latest (budgetGate d latest) := by
  have hle := budgetGate_le hlatest
  have hkept : ∀ h i, h ≤ i → ¬ Deleted ((retainBefore R h).run d).1 i := by
    intro h i hi hdel
    obtain ⟨gate, -, -, -, hlt, -⟩ := (deleted_retainBefore R d h i).mp hdel
    omega
  have hresult : minIncarnationForByteBudget R d byteCap =
      some (budgetWalk byteCap (fun inc => ((bytesPerInc (sealedEntries lines)).get? inc).getD 0) (budgetGate d latest - 1)
        (budgetGate d latest) (manifestedFrom (sealedEntries lines) latest (budgetGate d latest) % 2 ^ 64)) := by
    unfold minIncarnationForByteBudget
    rw [if_neg hcap.ne', hlatest, hread]
    have hsum : ((bytesPerInc (sealedEntries lines)).entries.filter fun e =>
          decide (budgetGate d latest ≤ e.1 ∧ e.1 ≤ latest)).foldl (fun sum e => wrappingAdd sum e.2) 0 =
        manifestedFrom (sealedEntries lines) latest (budgetGate d latest) % 2 ^ 64 := by
      rw [foldl_wrappingAdd _ (Nat.two_pow_pos 64), Nat.zero_add]
      exact sumOver_bytesPerInc _ fun inc => decide (budgetGate d latest ≤ inc ∧ inc ≤ latest)
    simp only [Option.map_some, hsum]
  have hpromise : ∀ h, Horizon R d (sealedEntries lines) byteCap latest h ↔
      h ≤ budgetGate d latest ∧ Fitting (sealedEntries lines) byteCap latest (budgetGate d latest) h := fun h =>
    ⟨fun hz => ⟨hz.le_gate, hz.fits, hz.least⟩, fun hz => ⟨hz.1, hz.2.1, hz.2.2, hkept h⟩⟩
  rw [hresult]
  simp only [Option.some.injEq, exists_eq_left', hpromise]
  generalize hgate : budgetGate d latest = gate at hle ⊢
  cases gate with
  | zero =>
    refine iff_of_true ⟨le_rfl, .inl rfl, fun g hpos hlt => ?_⟩ fun g hgt hle' => by omega
    exact absurd hlt (Nat.not_lt_zero g)
  | succ n =>
    rw [Nat.add_sub_cancel, budgetWalk_spec hfits (get?_bytesPerInc _) hle n le_rfl (.inl rfl)]
    exact and_iff_right (budgetWalk_le (Nat.lt_succ_self n))

/-- The records of three incarnations: a short one, a longer one, and one with a checkpoint. -/
def threeIncarnations : List (List Record) :=
  [[⟨.output, 1, 0, [65]⟩], [⟨.output, 1, 0, List.replicate 40 66⟩],
    [⟨.checkpointRef, 1, 0, encodeCheckpoint ⟨24, 80, (1, 1), false, false, false, 1, [72]⟩⟩]]

def threeLines : List ManifestLine :=
  threeIncarnations.zipIdx.map fun e => .sealed (entryOf ⟨e.2 + 1, 1⟩ e.1)

/-- Their journal, with every part sealed. -/
def sealedThree : Dir :=
  applyEffects
    ((threeIncarnations.zipIdx.flatMap fun e =>
        [Effect.createPart ⟨e.2 + 1, 1⟩, .writePart ⟨e.2 + 1, 1⟩ (encodeAll e.1)]) ++
      [.appendManifest (renderAll threeLines)]) Dir.empty

set_option maxRecDepth 20000 in
theorem read_sealedThree : readManifestText exactReader sealedThree.manifestText = some threeLines := by
  have htext : sealedThree.manifestText = renderAll threeLines := by decide +kernel
  rw [htext]
  exact read_renderAll threeLines

theorem horizon_iff_three :
    (∃ h, minIncarnationForByteBudget exactReader sealedThree 200 = some h ∧
      Horizon exactReader sealedThree (sealedEntries threeLines) 200 3 h) ↔
    Closed (sealedEntries threeLines) 200 3 (budgetGate sealedThree 3) :=
  horizon_iff exactReader sealedThree (by decide) (by decide) (by decide +kernel) read_sealedThree

/-- **An oversized incarnation in the middle.** With a cap of 110 bytes the horizon is
the first of them: the second is not counted, but kept. -/
theorem oversized_middle :
    minIncarnationForByteBudget exactReader sealedThree 110 = some 1 ∧ budgetGate sealedThree 3 = 3 ∧
      manifestedFrom (sealedEntries threeLines) 3 1 = 177 ∧
      ¬ Horizon exactReader sealedThree (sealedEntries threeLines) 110 3 1 := by
  have hgate : budgetGate sealedThree 3 = 3 := by decide +kernel
  have hbytes : manifestedFrom (sealedEntries threeLines) 3 1 = 177 := by decide +kernel
  refine ⟨?_, hgate, hbytes, fun h => ?_⟩
  · have hlast : (listIncarnations sealedThree).getLast? = some 3 := by decide +kernel
    unfold minIncarnationForByteBudget
    rw [if_neg (by decide), hlast, read_sealedThree]
    decide +kernel
  · have := h.fits
    rw [hgate, hbytes] at this
    omega

end Journal
end OpenRelay
